import HostGlue.Proofs.Entry.Complaints
import Mathlib.Data.List.Nodup

/-!
# Everything that speaks against a context

A context is made of a protocol and a list of buffer kinds, unless something speaks against them. Here
all of that is listed, in the order in which it counts:

* `Ident.Joined`, a path as identifiers with points between them, and that dotted paths are those
  (`Ident.isDottedPath_iff`), of which the root segment is the first (`Ident.Joined.rootSegment`);
* `Protocol.complaints` and `BufferKind.complaintsAfter`, all that is wrong with a protocol and with a
  list of kinds, and that the checks give the first of it;
* `BufferKind.repeats_of_errorAfter?`, what a complaint about a code tells of the kinds before it;
* **`Context.of_first_complaint`: there is a context exactly if protocol and kinds are acceptable**, and
  the first complaint otherwise.
-/

namespace HostGlue

open Entry (applying head?_applying_cons applying_eq_nil_iff nameObjections head?_nameObjections
  nameObjections_eq_nil_iff)

/-! ## 1. Dotted paths -/

namespace Ident

/-- A path that is a root and further segments, all of them identifiers, with points between. -/
structure Joined (path root : String) (fields : List String) : Prop where
  identifiers : ∀ s ∈ root :: fields, isIdentifier s = true
  joined : path = ".".intercalate (root :: fields)

variable {path root : String} {fields : List String}

/-- No identifier holds a point, so the segments of a path are found again. -/
theorem Joined.pathSegments (h : Joined path root fields) : pathSegments path = root :: fields := by
  have hparts : ∀ part ∈ (root :: fields).map String.toList, '.' ∉ part := by
    intro part hpart
    obtain ⟨s, hs, rfl⟩ := List.mem_map.mp hpart
    exact not_mem_of_isIdentifier (h.identifiers s hs) (by decide)
  have hnames : (String.ofList ∘ String.toList) = id := by
    funext s
    exact String.ofList_toList
  rw [Ident.pathSegments, h.joined, String.toList_intercalate]
  show ((Text.split '.' (['.'].intercalate _)).map String.ofList) = _
  rw [← Script.join_eq_intercalate, Text.split_join (by simp) hparts, List.map_map, hnames,
    List.map_id]

theorem Joined.rootSegment (h : Joined path root fields) : rootSegment path = root :=
  pathSegments_head h.pathSegments

/-- **The dotted paths are the identifiers joined by points**, at least one of them. -/
theorem isDottedPath_iff (path : String) :
    isDottedPath path = true ↔ ∃ root fields, Joined path root fields := by
  constructor
  · intro h
    have hpath := isPath_of_isDottedPath h
    obtain ⟨root, fields, hsegments⟩ := hpath.segments
    refine ⟨root, fields, ?_, ?_⟩
    · rw [← hsegments]
      exact hpath.identifiers
    · rw [← hsegments, Script.intercalate_pathSegments]
  · rintro ⟨root, fields, h⟩
    rw [isDottedPath, List.all_eq_true]
    intro part hpart
    have hsegment : String.ofList part ∈ root :: fields := by
      rw [← h.pathSegments]
      exact List.mem_map_of_mem hpart
    have hid := h.identifiers _ hsegment
    rwa [isIdentifier, String.toList_ofList] at hid

end Ident

/-! ## 2. Protocols -/

namespace Protocol

/-- All that is wrong with a protocol, setting by setting. -/
def complaints (p : Protocol) : List (Setting × Reason) :=
  applying
    [(p.instanceKey == "", .instanceKey, .empty), (p.constructorKey == "", .constructorKey, .empty),
      (p.instanceKey == p.constructorKey, .constructorKey, .sameAsInstanceKey)] ++
    (nameObjections p.initializeEntry).map (fun o => (.initializeEntry, .name o)) ++
    applying
      [(!Ident.isDottedPath p.stringDecoder, .stringDecoder, .notDottedPath),
        (!Ident.isDottedPath p.dynCall, .dynCall, .notDottedPath)]

/-- The check gives the first complaint. -/
theorem fault?_eq_head? (p : Protocol) : p.fault? = p.complaints.head? := by
  unfold fault? complaints
  simp only [List.head?_append, head?_applying_cons, List.head?_map, head?_nameObjections,
    beq_iff_eq]
  split
  · rfl
  · split
    · rfl
    · split
      · rfl
      · cases Ident.objection? p.initializeEntry with
        | some o => rfl
        | none => rfl

end Protocol

/-! ## 3. Kinds of views -/

namespace BufferKind

/-- All that is wrong with a list of kinds behind the kinds `before`, one kind after another: what
    speaks against its name, then the kinds that have its code already. -/
def complaintsAfter (before : List BufferKind) : List BufferKind → List GlueError
  | [] => []
  | k :: ks =>
    (nameObjections k.name).map (.invalidIdentifier k.name .bufferKinds) ++
      (before.filter fun s => s.code == k.code).map
        (fun first => .duplicateBufferKind k.code first.name k.name) ++
      complaintsAfter (before ++ [k]) ks

/-- The check gives the first complaint. -/
theorem errorAfter?_eq_head? : ∀ before ks : List BufferKind,
    errorAfter? before ks = (complaintsAfter before ks).head?
  | _, [] => rfl
  | before, k :: ks => by
      rw [errorAfter?, complaintsAfter, errorAfter?_eq_head? (before ++ [k]) ks]
      simp only [List.head?_append, List.head?_map, List.head?_filter, head?_nameObjections]
      cases Ident.objection? k.name with
      | some o => rfl
      | none => cases before.find? fun s => s.code == k.code <;> rfl

theorem filter_code_eq_nil_iff (before : List BufferKind) (code : Int32) :
    (before.filter fun s => s.code == code) = [] ↔ code ∉ before.map (·.code) := by
  simp [List.filter_eq_nil_iff]

theorem nodup_code_concat {before : List BufferKind} {k : BufferKind} :
    ((before ++ [k]).map (·.code)).Nodup ↔
      (before.map (·.code)).Nodup ∧ k.code ∉ before.map (·.code) := by
  rw [List.map_append, List.map_singleton, ← List.concat_eq_append, List.nodup_concat, and_comm]

/-- Nothing is wrong exactly if all names can be bound and no code comes twice. -/
theorem complaintsAfter_eq_nil_iff : ∀ before ks : List BufferKind,
    (before.map (·.code)).Nodup →
    (complaintsAfter before ks = [] ↔
      (∀ k ∈ ks, nameObjections k.name = []) ∧ ((before ++ ks).map (·.code)).Nodup)
  | before, [], h => by simp [complaintsAfter, h]
  | before, k :: ks, h => by
      rw [complaintsAfter, List.append_eq_nil_iff, List.append_eq_nil_iff, List.map_eq_nil_iff,
        List.map_eq_nil_iff, filter_code_eq_nil_iff, List.forall_mem_cons,
        List.append_cons before k ks]
      -- The kind that was looked at joins those before it, so its code counts for the rest.
      constructor
      · rintro ⟨⟨hname, hcode⟩, hrest⟩
        obtain ⟨hnames, hcodes⟩ :=
          (complaintsAfter_eq_nil_iff (before ++ [k]) ks (nodup_code_concat.mpr ⟨h, hcode⟩)).mp hrest
        exact ⟨⟨hname, hnames⟩, hcodes⟩
      · rintro ⟨⟨hname, hnames⟩, hcodes⟩
        have hk : ((before ++ [k]).map (·.code)).Nodup :=
          hcodes.sublist ((List.sublist_append_left _ ks).map _)
        exact ⟨⟨hname, (nodup_code_concat.mp hk).2⟩,
          (complaintsAfter_eq_nil_iff (before ++ [k]) ks hk).mpr ⟨hnames, hcodes⟩⟩

/-- Where no code comes twice, the first kind of a code is the only one. -/
theorem filter_code_of_find? {code : Int32} {first : BufferKind} : ∀ {before : List BufferKind},
    (before.map (·.code)).Nodup → before.find? (fun s => s.code == code) = some first →
    (before.filter fun s => s.code == code) = [first]
  | [], _, h => by cases h
  | s :: before, hn, h => by
      obtain ⟨hs, hn⟩ := List.nodup_cons.mp hn
      cases hcode : s.code == code with
      | true =>
        simp only [List.find?_cons, hcode] at h
        cases h
        have hrest := (filter_code_eq_nil_iff before code).mpr (by rwa [← eq_of_beq hcode])
        rw [List.filter_cons, if_pos hcode, hrest]
      | false =>
        simp only [List.find?_cons, hcode] at h
        rw [List.filter_cons, hcode, if_neg Bool.false_ne_true, filter_code_of_find? hn h]

/-- **What a complaint about a code tells**: it is about the first kind whose code came before, and names
    the only kind in front of it that has this code. -/
theorem repeats_of_errorAfter? {code : Int32} {first second : String} :
    ∀ {before ks : List BufferKind}, (before.map (·.code)).Nodup →
    errorAfter? before ks = some (.duplicateBufferKind code first second) →
    ∃ passed k rest, ks = passed ++ k :: rest ∧ k.code = code ∧ k.name = second ∧
      ((before ++ passed).map (·.code)).Nodup ∧
      ((before ++ passed).filter fun s => s.code == code).map (·.name) = [first]
  | _, [], _, h => by cases h
  | before, k :: ks, hn, h => by
      rw [errorAfter?] at h
      split at h
      · cases h
      · split at h
        · rename_i f hfind
          cases h
          refine ⟨[], k, ks, rfl, rfl, rfl, ?_, ?_⟩
          · rwa [List.append_nil]
          · rw [List.append_nil, filter_code_of_find? hn hfind, List.map_singleton]
        · rename_i hfind
          -- No complaint was about `k`: the codes up to here still differ.
          have hfresh : k.code ∉ before.map (·.code) := by
            rw [← filter_code_eq_nil_iff, ← List.head?_eq_none_iff, List.head?_filter, hfind]
          obtain ⟨passed, j, rest, rfl, hcode, hname, hnodup, hfirst⟩ :=
            repeats_of_errorAfter? (nodup_code_concat.mpr ⟨hn, hfresh⟩) h
          rw [← List.append_cons] at hnodup hfirst
          exact ⟨k :: passed, j, rest, rfl, hcode, hname, hnodup, hfirst⟩

end BufferKind

/-! ## 4. Contexts -/

namespace Context

variable (p : Protocol) (kinds : List BufferKind)

/-- All that speaks against a protocol and a list of kinds. -/
def complaints : List GlueError :=
  p.complaints.map (fun c => .invalidProtocol c.1 (p.get c.1) c.2) ++
    BufferKind.complaintsAfter [] kinds

/-- What a protocol and a list of kinds must be like to make a context: both keys are given and differ,
    the reserved entry has a name that can be bound, the host functions are identifiers joined by
    points, and the kinds have names that can be bound and codes that differ. -/
structure Acceptable : Prop where
  instanceKey : p.instanceKey ≠ ""
  constructorKey : p.constructorKey ≠ ""
  keys : p.instanceKey ≠ p.constructorKey
  entry : Ident.isIdentifier p.initializeEntry = true ∧ p.initializeEntry ∉ Ident.reservedWords ∧
    p.initializeEntry ∉ Ident.hostGlobals
  stringDecoder : ∃ root fields, Ident.Joined p.stringDecoder root fields
  dynCall : ∃ root fields, Ident.Joined p.dynCall root fields
  named : ∀ k ∈ kinds, Ident.isIdentifier k.name = true ∧ k.name ∉ Ident.reservedWords ∧
    k.name ∉ Ident.hostGlobals
  distinct : (kinds.map (·.code)).Nodup

theorem error?_eq_head? : error? p kinds = (complaints p kinds).head? := by
  unfold error? complaints
  rw [Protocol.fault?_eq_head?, BufferKind.errorAfter?_eq_head?, List.head?_append, List.head?_map]
  cases p.complaints.head? <;> rfl

/-- **Nothing speaks against a protocol and a list of kinds exactly if they are acceptable.** -/
theorem complaints_eq_nil_iff : complaints p kinds = [] ↔ Acceptable p kinds := by
  unfold complaints Protocol.complaints
  simp only [List.append_eq_nil_iff, List.map_eq_nil_iff, applying_eq_nil_iff,
    BufferKind.complaintsAfter_eq_nil_iff [] kinds List.nodup_nil, nameObjections_eq_nil_iff,
    List.forall_mem_cons, List.not_mem_nil, false_imp_iff, implies_true, and_true,
    beq_eq_false_iff_ne, Bool.not_eq_false', Ident.isDottedPath_iff, List.nil_append]
  constructor
  · rintro ⟨⟨⟨⟨hinstance, hconstructor, hkeys⟩, hentry⟩, hdecoder, hcall⟩, hnames, hcodes⟩
    exact ⟨hinstance, hconstructor, hkeys, hentry, hdecoder, hcall, hnames, hcodes⟩
  · rintro ⟨hinstance, hconstructor, hkeys, hentry, hdecoder, hcall, hnames, hcodes⟩
    exact ⟨⟨⟨⟨hinstance, hconstructor, hkeys⟩, hentry⟩, hdecoder, hcall⟩, hnames, hcodes⟩

/-- The protocol and the kinds of a context are acceptable. -/
theorem acceptable (ctx : Context) : Acceptable ctx.protocol ctx.kinds := by
  rw [← complaints_eq_nil_iff, ← List.head?_eq_none_iff, ← error?_eq_head?]
  exact ctx.accepted

theorem of_eq_error_iff (err : GlueError) :
    Context.of p kinds = .error err ↔ error? p kinds = some err := by
  unfold Context.of
  split
  · rename_i e h
    rw [h, Except.error.injEq, Option.some.injEq]
  · rename_i h
    simp [h]

theorem of_eq_ok_iff (ctx : Context) :
    Context.of p kinds = .ok ctx ↔ ctx.protocol = p ∧ ctx.kinds = kinds := by
  unfold Context.of
  split
  · rename_i e h
    constructor
    · intro hok
      cases hok
    · rintro ⟨rfl, rfl⟩
      rw [ctx.accepted] at h
      cases h
  · constructor
    · intro hok
      cases hok
      exact ⟨rfl, rfl⟩
    · rintro ⟨rfl, rfl⟩
      rfl

/-- **There is a context exactly if protocol and kinds are acceptable**, and it is one of that protocol
    and those kinds. Otherwise the error is the first complaint: about the settings in order, then about
    the kinds in order, of each its name before its code. The host functions of a protocol are reached
    through the first of the identifiers they are joined from. If a code comes twice, the error is about
    the first kind whose code came before, and names the one kind in front of it with that code. -/
theorem of_first_complaint :
    ((∃ ctx, Context.of p kinds = .ok ctx ∧ ctx.protocol = p ∧ ctx.kinds = kinds) ↔
      Acceptable p kinds) ∧
    (∀ err, Context.of p kinds = .error err ↔ (complaints p kinds).head? = some err) ∧
    (∀ decoder caller fields others, Ident.Joined p.stringDecoder decoder fields →
      Ident.Joined p.dynCall caller others → p.roots = [decoder, caller]) ∧
    ∀ code first second,
      Context.of p kinds = .error (.duplicateBufferKind code first second) →
      ∃ before k after, kinds = before ++ k :: after ∧ k.code = code ∧ k.name = second ∧
        (before.map (·.code)).Nodup ∧
        (before.filter fun s => s.code == code).map (·.name) = [first] := by
  refine ⟨?_, fun err => ?_, fun decoder caller fields others hdecoder hcaller => ?_,
    fun code first second h => ?_⟩
  · rw [← complaints_eq_nil_iff, ← List.head?_eq_none_iff, ← error?_eq_head?]
    constructor
    · rintro ⟨ctx, -, rfl, rfl⟩
      exact ctx.accepted
    · intro h
      exact ⟨⟨p, kinds, h⟩, (of_eq_ok_iff p kinds _).mpr ⟨rfl, rfl⟩, rfl, rfl⟩
  · rw [of_eq_error_iff, error?_eq_head?]
  · rw [Protocol.roots, hdecoder.rootSegment, hcaller.rootSegment]
  · have herror := (of_eq_error_iff p kinds _).mp h
    unfold error? at herror
    split at herror
    · cases herror
    · have hn : (([] : List BufferKind).map (·.code)).Nodup := List.nodup_nil
      exact BufferKind.repeats_of_errorAfter? hn herror

/-- The standard views with a second one of code 7, and behind it one whose name cannot be bound. -/
def repeatedKinds : List BufferKind :=
  BufferKind.standard ++ [⟨7, "BigInt64Array"⟩, ⟨8, "void"⟩]

theorem of_first_complaint_sample :
    Ident.Joined "Pointer_stringify" "Pointer_stringify" [] ∧
    Ident.Joined "Runtime.dynCall" "Runtime" ["dynCall"] ∧
    Protocol.roots {} = ["Pointer_stringify", "Runtime"] ∧
    Context.of {} repeatedKinds =
      .error (.duplicateBufferKind 7 "Float64Array" "BigInt64Array") ∧
    ∃ before k after, repeatedKinds = before ++ k :: after ∧ k.code = 7 ∧ k.name = "BigInt64Array" ∧
      (before.map (·.code)).Nodup ∧
      (before.filter fun s => s.code == 7).map (·.name) = ["Float64Array"] := by
  have hdecoder : Ident.Joined "Pointer_stringify" "Pointer_stringify" [] := ⟨by decide, by decide⟩
  have hcaller : Ident.Joined "Runtime.dynCall" "Runtime" ["dynCall"] := ⟨by decide, by decide⟩
  have herror : Context.of {} repeatedKinds =
      .error (.duplicateBufferKind 7 "Float64Array" "BigInt64Array") :=
    (of_eq_error_iff _ _ _).mpr (by decide)
  obtain ⟨-, -, hroots, hrepeats⟩ := of_first_complaint {} repeatedKinds
  exact ⟨hdecoder, hcaller, hroots _ _ _ _ hdecoder hcaller, herror, hrepeats _ _ _ herror⟩

end Context

end HostGlue
