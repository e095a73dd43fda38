import HostGlue.Proofs.Catalog.Edits
import HostGlue.Proofs.Catalog.Values
import HostGlue.Proofs.Json.Cuts
import HostGlue.Proofs.Json.Integers

/-!
# Catalog texts that are cut off or go on

A catalog text that lost its end, or that something stands behind, is no catalog text any more, and what
is reported is a fault of the text and not a wrong shape:

* `Shapely`, a reading that meets no value of a wrong shape. Readers that read one thing after another are
  shapely if each step is (`Shapely.bind`);
* `Tree.Torn.read`, that what is left of a scalar is a fault for every reader, and
  `Int32Literal.front`, that a literal of 32 bits that lost its end is such a literal or no numeral at all;
* **`Tree.Cut.shapely`: where a value is read, the reading of what is left of it is shapely**, whatever
  the role, by induction on what is left. Fields that may be left out do not complete a record, since the
  end of what is left is the fault;
* **`Catalog.ofJson_cut_or_continued`, for whole texts.**
-/

namespace HostGlue.Json

open Shape (Field Record)

/-! ## 1. Readings without a wrong shape -/

/-- A reading that meets no value of a wrong shape. The text may be at fault. -/
def Shapely {α : Type} (x : Result α) : Prop := ∀ p, x ≠ .error (.shape p)

namespace Shapely

variable {α β : Type}

theorem ok (a : α) : Shapely (.ok a : Result α) := nofun

theorem fail (f : Fault) : Shapely (Json.fail f : Result α) := nofun

theorem of_ok {x : Result α} (h : ∃ a, x = .ok a) : Shapely x := by
  obtain ⟨a, rfl⟩ := h
  exact ok a

theorem of_fail {x : Result α} (h : ∃ f, x = Json.fail f) : Shapely x := by
  obtain ⟨f, rfl⟩ := h
  exact fail f

theorem bind {x : Result α} {f : α → Result β} (h : Shapely x)
    (hf : ∀ a, x = .ok a → Shapely (f a)) : Shapely (x >>= f) := by
  cases x with
  | ok a => exact hf a rfl
  | error e =>
    cases e with
    | fault f => exact fail f
    | shape p => exact absurd rfl (h p)

theorem endOf (ending : Option Fault) (a : α) : Shapely (Json.endOf ending a) := by
  cases ending with
  | none => exact ok a
  | some f => exact fail f

end Shapely

/-- A key is read, or it is at fault. -/
theorem shapely_readKey (key : Tree) : Shapely (readKey key) := by
  have htext : ∀ t : Text, Shapely t.read := by
    intro t
    unfold Text.read
    split
    · exact nofun
    · split <;> exact nofun
  cases key with
  | text t => exact htext t
  | nothing f => exact .fail f
  | _ => exact .fail .malformed

/-! ## 2. What is left of scalars -/

theorem Tree.Torn.readKey {v : Tree} (h : v.Torn) : ∃ f, Json.readKey v = fail f := by
  cases h <;> exact ⟨_, rfl⟩

/-- **What is left of a scalar is a fault**, whatever it is read as: all readers look at the kind of a
    value first. -/
theorem Tree.Torn.read {v : Tree} (h : v.Torn) (ρ : Role) (depth : Nat) :
    ∃ f, ρ.read depth v = fail f := by
  cases h <;> cases ρ <;> cases depth <;> exact ⟨_, rfl⟩

theorem le_numberFrom : ∀ (ds : List Char) (n : Nat), n ≤ Digits.numberFrom 10 n ds
  | [], n => Nat.le_refl n
  | d :: ds, n => by
      have ih := le_numberFrom ds (10 * n + Digits.value d)
      rw [Digits.numberFrom]
      omega

/-- **A literal of 32 bits that lost its end** is such a literal, if it is a numeral. -/
theorem Int32Literal.front {cs more : List Char} {y : Numeral} (h : Int32Literal (cs ++ more))
    (hy : y.Spelled cs) : Int32Literal cs := by
  generalize htext : cs ++ more = text at h
  cases h with
  | @mk negative ds whole nonzero low high =>
    cases hy with
    | @mk negative' ds' f e _ _ leading point power =>
      have hscan := scanMinus_append leading negative' (f ++ e ++ more)
      have hwhole := scanMinus_append whole negative []
      rw [List.append_nil, ← htext] at hwhole
      simp only [List.append_assoc] at hscan hwhole
      obtain ⟨rfl, rfl⟩ := Prod.mk.inj (hscan.symm.trans hwhole)
      -- among digits there are neither a fraction nor an exponent
      have hdigits : ∀ c ∈ f ++ e, c.isDigit = true := by
        intro c hc
        refine whole.digital.digits c (List.mem_append_right ds' ?_)
        rw [← List.append_assoc]
        exact List.mem_append_left more hc
      have hf : f = [] := by
        cases point with
        | none => rfl
        | some => exact absurd (hdigits '.' List.mem_cons_self) (by decide)
      have he : e = [] := by
        cases power with
        | none => rfl
        | @some letter _ _ _ hletter =>
          have hdigit := hdigits letter (List.mem_append_right f List.mem_cons_self)
          rcases hletter with rfl | rfl <;> exact absurd hdigit (by decide)
      subst hf he
      simp only [List.nil_append, List.append_nil] at whole nonzero low high ⊢
      have hle : Digits.number 10 ds' ≤ Digits.number 10 (ds' ++ more) := by
        rw [Digits.number, Digits.number, Digits.numberFrom_append]
        exact le_numberFrom more _
      have hzero : ds' = ['0'] → ds' ++ more = ['0'] := by
        rintro rfl
        exact whole.lead rfl
      refine .mk leading (fun h => nonzero ⟨h.1, hzero h.2⟩) ?_ ?_ <;>
        cases negative' <;>
        simp only [signed, Bool.false_eq_true, if_true, if_false] at low high ⊢ <;> omega

/-- **What is left of a numeral** that is read is read, or is a fault. -/
theorem Numeral.Shorter.shapely {x y : Numeral} (h : x.Shorter y) {ρ : Role} {depth : Nat}
    {a : ρ.Value} (hread : ρ.read depth (.numeral x) = .ok a) :
    Shapely (ρ.read depth (.numeral y)) := by
  obtain ⟨whole, part⟩ := h
  cases ρ with
  | code =>
    have hliteral := (exists_readInt32_iff (.numeral whole)).mp ⟨a, hread⟩
    exact .of_ok ((exists_readInt32_iff (.numeral part)).mpr (hliteral.front part))
  | text => cases hread
  | _ => cases depth <;> cases hread

/-! ## 3. What is left of arrays -/

theorem shapely_readItems {α : Type} {item : Tree → Result α} {ending : Option Fault} :
    ∀ {ts : List Tree}, (∀ t ∈ ts, Shapely (item t)) → Shapely (readItems item ending ts)
  | [], _ => .endOf ending []
  | t :: ts, h => by
      obtain ⟨ht, hts⟩ := List.forall_mem_cons.mp h
      exact ht.bind fun a _ => (shapely_readItems hts).bind fun as _ => .ok (a :: as)

/-- A record that is filled by position is not found short, if its text breaks off. -/
theorem shapely_fillFrom {δ : Type} (r : Record Tree Error δ) (f : Fault) :
    ∀ (fs : List (Field Tree Error δ)) (items : List Tree) (i : Nat) (d : δ),
      (∀ (j : Nat) field v, fs[j]? = some field → items[j]? = some v →
        ∀ d, Shapely (field.fill v d)) →
      Shapely (r.fillFrom .shape (some (.fault f)) i fs items d)
  | [], items, _, d, _ => .ok (d, items)
  -- the fault comes before a field that is required and one that may be left out alike
  | _ :: _, [], _, _, _ => .fail f
  | field :: fs, v :: items, i, d, h =>
      (h 0 field v rfl rfl d).bind fun d _ =>
        shapely_fillFrom r f fs items (i + 1) d fun j => h (j + 1)

/-- A record is read from a container that was closed. -/
theorem Layout.closed_of_read {ρ : Role} (l : Layout ρ) {depth : Nat} {t : Tree} {a : ρ.Value}
    (h : ρ.read depth t = .ok a) : t.Closed := by
  cases depth with
  | zero =>
    rw [l.read_zero] at h
    cases h
  | succ depth =>
    rw [l.read_succ] at h
    obtain ⟨d, hrecord, -⟩ := bind_eq_ok.mp h
    rcases closed_of_readRecord hrecord with ⟨ms, rfl⟩ | ⟨items, rfl⟩
    · exact .object ms
    · exact .array items

/-- What broke off is not read as a record. -/
theorem Layout.shapely_read {ρ : Role} (l : Layout ρ) {depth : Nat} {t : Tree}
    (hbroken : t.skipFault ≠ none) (h : Shapely (readRecord (l.record depth) l.start t)) :
    Shapely (ρ.read (depth + 1) t) := by
  rw [l.read_succ]
  refine h.bind fun d hd => ?_
  rcases closed_of_readRecord hd with ⟨ms, rfl⟩ | ⟨items, rfl⟩ <;> exact absurd rfl hbroken

namespace Role

variable {ρ : Role} {depth : Nat} {a : ρ.Value} {f : Fault}

/-- What the element at a position of an array stands for. -/
def element? (ρ : Role) (j : Nat) : Option Role := ρ.item?.or (ρ.fields[j]?.map (·.2))

/-- The elements of an array that is read are read one level deeper. -/
theorem of_read_element {σ : Role} {items : List Tree}
    (h : ρ.read (depth + 1) (.array items none) = .ok a) {j : Nat} {v : Tree}
    (hσ : ρ.element? j = some σ) (hv : items[j]? = some v) : ∃ b, σ.read depth v = .ok b := by
  obtain ⟨hj, rfl⟩ := List.getElem?_eq_some_iff.mp hv
  have hplace : Place ρ (fun u => .array (items.take j ++ u :: items.drop (j + 1)) none) σ := by
    unfold element? at hσ
    cases hitem : ρ.item? with
    | some τ =>
      rw [hitem] at hσ
      cases hσ
      exact .element hitem
    | none =>
      rw [hitem, Option.none_or, Option.map_eq_some_iff] at hσ
      obtain ⟨⟨name, _⟩, hfield, rfl⟩ := hσ
      exact .position (by rwa [List.length_take_of_le (Nat.le_of_lt hj)])
  rw [← List.take_append_drop j items, List.drop_eq_getElem_cons hj] at h
  exact (hplace.through_succ depth).of_ok h

/-- What is left of an array is read without a wrong shape, if its elements are. -/
theorem shapely_array {whole items : List Tree}
    (hread : ρ.read (depth + 1) (.array whole none) = .ok a)
    (h : ∀ j σ v, ρ.element? j = some σ → items[j]? = some v → Shapely (σ.read depth v)) :
    Shapely (ρ.read (depth + 1) (.array items (some f))) := by
  by_cases hρ : ρ.fields = []
  · cases ρ with
    | params | externs | kinds =>
      refine shapely_readItems fun t ht => ?_
      obtain ⟨j, hj⟩ := List.getElem?_of_mem ht
      exact h j _ t rfl hj
    | text | code | direction | ty => cases hread
    | _ => cases hρ
  · obtain ⟨l⟩ := exists_layout hρ
    have hitem : ρ.item? = none := by
      cases ρ <;> first | rfl | exact absurd rfl hρ
    refine l.shapely_read (Option.some_ne_none f) (Shapely.bind ?_ fun filled _ => ?_)
    · refine shapely_fillFrom _ f _ items 0 l.start fun j field v hfield hv d => ?_
      rw [Layout.record, List.getElem?_map, Option.map_eq_some_iff] at hfield
      obtain ⟨s, hs, rfl⟩ := hfield
      have hσ : ρ.element? j = some s.role := by
        rw [element?, hitem, Option.none_or, ← l.fields, List.getElem?_map, hs]
        rfl
      exact (h j s.role v hσ hv).bind fun b _ => .ok (s.put b d)
    · dsimp only
      split
      · exact .endOf (some f) filled.1
      · exact .fail .malformed

/-- What is left of an array of which an element is cut off. -/
theorem shapely_element {before after : List Tree} {t v : Tree}
    (hread : ρ.read (depth + 1) (.array (before ++ t :: after) none) = .ok a)
    (hv : ∀ σ b, Role.read σ depth t = .ok b → Shapely (σ.read depth v)) :
    Shapely (ρ.read (depth + 1) (.array (before ++ [v]) (some f))) := by
  refine shapely_array hread fun j σ u hσ hu => ?_
  rcases Nat.lt_trichotomy j before.length with hj | rfl | hj
  · have hwhole : (before ++ t :: after)[j]? = some u := by
      rwa [List.getElem?_append_left hj] at hu ⊢
    exact .of_ok (of_read_element hread hσ hwhole)
  · obtain rfl : v = u := by simpa using hu
    obtain ⟨b, hb⟩ := of_read_element (v := t) hread hσ (by simp)
    exact hv σ b hb
  · have hlength := (List.getElem?_eq_some_iff.mp hu).1
    rw [List.length_append, List.length_singleton] at hlength
    omega

end Role

/-! ## 4. What is left of variants -/

section Variant

variable {α : Type} {bare : String → Result α} {content : String → Tree → Result α} {a : α}
variable {before after : List (Tree × Tree)} {key v : Tree} {f : Fault}

/-- A variant is read from one member. -/
theorem of_readVariant_object {ms : List (Tree × Tree)}
    (h : readVariant bare content (.object ms none) = .ok a) :
    ∃ m word b, ms = [m] ∧ readKey m.1 = .ok word ∧ content word m.2 = .ok b := by
  cases ms with
  | nil => cases h
  | cons m others =>
    obtain ⟨word, hword, h⟩ := bind_eq_ok.mp h
    obtain ⟨b, hb, h⟩ := bind_eq_ok.mp h
    cases others with
    | nil => exact ⟨m, word, b, rfl, hword, hb⟩
    | cons => cases h

theorem shapely_variant {m : Tree × Tree} {others : List (Tree × Tree)}
    (h : ∀ word, readKey m.1 = .ok word → Shapely (content word m.2)) :
    Shapely (readVariant bare content (.object (m :: others) (some f))) := by
  refine (shapely_readKey m.1).bind fun word hword => (h word hword).bind fun b _ => ?_
  split
  · exact .endOf (some f) b
  · exact .fail .malformed

/-- A variant is read without a wrong shape, whatever stands behind it, if its content is. -/
theorem shapely_variant_first {t : Tree} {ms others : List (Tree × Tree)}
    (h : readVariant bare content (.object ((key, t) :: ms) none) = .ok a)
    (hv : ∀ word b, content word t = .ok b → Shapely (content word v)) :
    Shapely (readVariant bare content (.object ((key, v) :: others) (some f))) := by
  obtain ⟨_, word, b, heq, hkey, hcontent⟩ := of_readVariant_object h
  obtain ⟨rfl, -⟩ := List.cons.inj heq
  refine shapely_variant fun word' hword' => ?_
  obtain rfl := Except.ok.inj (hkey.symm.trans hword')
  exact hv _ b hcontent

/-- A variant of which a key is cut off. -/
theorem shapely_variant_key (h : readVariant bare content (.object (before ++ after) none) = .ok a)
    (torn : key.Torn) :
    Shapely (readVariant bare content (.object (before ++ [(key, v)]) (some f))) := by
  cases before with
  | nil =>
    obtain ⟨f', hf'⟩ := torn.readKey
    exact shapely_variant fun word hword => absurd (hf'.symm.trans hword) nofun
  | cons => exact shapely_variant_first h fun _ b hb => .of_ok ⟨b, hb⟩

/-- A variant of which a value is cut off. -/
theorem shapely_variant_member {t : Tree}
    (h : readVariant bare content (.object (before ++ (key, t) :: after) none) = .ok a)
    (hv : ∀ word b, content word t = .ok b → Shapely (content word v)) :
    Shapely (readVariant bare content (.object (before ++ [(key, v)]) (some f))) := by
  cases before with
  | nil => exact shapely_variant_first h hv
  | cons => exact shapely_variant_first h fun _ b hb => .of_ok ⟨b, hb⟩

end Variant

/-- What is left of `null` is `null`, or a fault. -/
theorem Tree.Cut.shapely_readUnit {t v : Tree} (h : t.Cut v) (hread : readUnit t = .ok ()) :
    Shapely (readUnit v) := by
  cases h with
  | whole => exact .of_ok ⟨(), hread⟩
  | torn torn =>
    cases torn with
    | text ps f => exact .fail _
    | _ => exact .fail _
  | _ => cases hread

/-- What is left of the content of a type. -/
theorem shapely_tyOfContent {t v : Tree} (h : t.Cut v) {signature : Tree → Result Ty}
    (hsignature : ∀ b, signature t = .ok b → Shapely (signature v)) {word : String} {b : Ty}
    (hread : tyOfContent signature word t = .ok b) : Shapely (tyOfContent signature word v) := by
  unfold tyOfContent at hread ⊢
  cases hword : Plain.ofName? word with
  | some p =>
    rw [hword] at hread
    obtain ⟨_, hunit, -⟩ := bind_eq_ok.mp hread
    exact (h.shapely_readUnit hunit).bind fun _ _ => .of_ok ⟨_, rfl⟩
  | none =>
    rw [hword] at hread
    dsimp only at hread ⊢
    split at hread
    · rw [if_pos ‹_›]
      exact hsignature b hread
    · cases hread

/-! ## 5. What is left of objects -/

namespace Role

variable {ρ : Role} {depth : Nat} {a : ρ.Value} {f : Fault}
variable {before after : List (Tree × Tree)} {key v : Tree}

/-- A record of which a member is cut off is read as far as its other members. -/
theorem shapely_members {l : Layout ρ} {last : Tree × Tree} {d : l.Draft}
    (hbefore : l.Steps depth before l.start d)
    (hlast : Shapely (readMembers (l.record depth) (some f) [last] d)) :
    Shapely (ρ.read (depth + 1) (.object (before ++ [last]) (some f))) := by
  refine l.shapely_read (Option.some_ne_none f) ?_
  rw [readRecord, readMembers_append, Layout.readMembers_iff.mpr hbefore]
  exact hlast

/-- What is left of an object of which a key is cut off. -/
theorem shapely_key (hread : ρ.read (depth + 1) (.object (before ++ after) none) = .ok a)
    (torn : key.Torn) :
    Shapely (ρ.read (depth + 1) (.object (before ++ [(key, v)]) (some f))) := by
  by_cases hρ : ρ.fields = []
  · cases ρ with
    | ty | direction => exact shapely_variant_key hread torn
    | text | code | params | externs | kinds => cases hread
    | _ => cases hρ
  · obtain ⟨l⟩ := exists_layout hρ
    obtain ⟨e, hsteps, -⟩ := l.read_object_iff.mp hread
    obtain ⟨d, hbefore, -⟩ := Layout.Steps.append.mp hsteps
    refine shapely_members hbefore ?_
    obtain ⟨f', hf'⟩ := torn.readKey
    rw [readMembers, hf']
    exact .fail f'

/-- What is left of an object of which a value is cut off. -/
theorem shapely_member {t : Tree}
    (hread : ρ.read (depth + 1) (.object (before ++ (key, t) :: after) none) = .ok a) (cut : t.Cut v)
    (hv : ∀ σ b, Role.read σ depth t = .ok b → Shapely (σ.read depth v)) :
    Shapely (ρ.read (depth + 1) (.object (before ++ [(key, v)]) (some f))) := by
  by_cases hρ : ρ.fields = []
  · cases ρ with
    | ty =>
      exact shapely_variant_member hread fun word b hb =>
        shapely_tyOfContent cut (hv .signature) hb
    | direction =>
      refine shapely_variant_member hread fun word b hb => ?_
      obtain ⟨d, hd, hb⟩ := bind_eq_ok.mp hb
      obtain ⟨_, hunit, -⟩ := bind_eq_ok.mp hb
      rw [hd]
      exact (cut.shapely_readUnit hunit).bind fun _ _ => .of_ok ⟨d, rfl⟩
    | text | code | params | externs | kinds => cases hread
    | _ => cases hρ
  · obtain ⟨l⟩ := exists_layout hρ
    obtain ⟨e, hsteps, -⟩ := l.read_object_iff.mp hread
    obtain ⟨d, hbefore, hothers⟩ := Layout.Steps.append.mp hsteps
    refine shapely_members hbefore ?_
    cases hothers with
    | cons first _ =>
      cases first with
      | @known s b hs hkey hfree hvalue =>
        have hfree' : (s.field depth).filled d = false := hfree
        rw [readMembers, hkey]
        simp only [bind, Except.bind, Layout.field?_slot hs, hfree', Bool.false_eq_true, if_false]
        exact ((hv s.role b hvalue).bind fun b _ => .ok (s.put b d)).bind fun d _ => .fail f
      | @unknown name hkey hunknown hsound =>
        rw [readMembers, hkey]
        simp only [bind, Except.bind, Layout.field?_unknown hunknown]
        cases v.skipFault with
        | none => exact .fail f
        | some f' => exact .fail f'

end Role

/-! ## 6. What is left of values -/

/-- A container is read where some depth is left. -/
theorem Role.exists_depth {ρ : Role} {t : Tree} {depth : Nat} {a : ρ.Value} (ht : t.Closed)
    (h : ρ.read depth t = .ok a) : ∃ depth', depth = depth' + 1 := by
  cases depth with
  | zero => cases ht <;> cases ρ <;> cases h
  | succ depth => exact ⟨depth, rfl⟩

/-- **Where a value is read, the reading of what is left of it meets no wrong shape.** -/
theorem Tree.Cut.shapely {t v : Tree} (h : t.Cut v) : ∀ (ρ : Role) {depth : Nat} (a : ρ.Value),
    ρ.read depth t = .ok a → Shapely (ρ.read depth v) := by
  induction h with
  | whole t => exact fun _ _ _ hread => .of_ok ⟨_, hread⟩
  | torn torn => exact fun ρ depth _ _ => .of_fail (torn.read ρ depth)
  | shorter shorter => exact fun _ _ _ => shorter.shapely
  | @empty v f torn =>
    intro ρ depth a hread
    obtain ⟨depth, rfl⟩ := Role.exists_depth (.array _) hread
    refine Role.shapely_array hread fun j σ u _ hu => ?_
    obtain rfl := List.mem_singleton.mp (List.mem_of_getElem? hu)
    exact .of_fail (torn.read σ depth)
  | element _ ih =>
    intro ρ depth a hread
    obtain ⟨depth, rfl⟩ := Role.exists_depth (.array _) hread
    exact Role.shapely_element hread fun σ b => ih σ b
  | key torn =>
    intro ρ depth a hread
    obtain ⟨depth, rfl⟩ := Role.exists_depth (.object _) hread
    exact Role.shapely_key hread torn
  | member cut ih =>
    intro ρ depth a hread
    obtain ⟨depth, rfl⟩ := Role.exists_depth (.object _) hread
    exact Role.shapely_member hread cut fun σ b => ih σ b

end HostGlue.Json

namespace HostGlue.Catalog

open Json

/-! ## 7. Whole texts -/

/-- A catalog text that something stands behind. -/
theorem ofJson_continued {text more : String} {c : Catalog} (h : ofJson text = .ok c) :
    ofJson (text ++ more) = if Blank more.toList then .ok c else .error (.fault .malformed) := by
  obtain ⟨t, hspelled, hread⟩ := ofJson_eq_ok_iff.mp h
  have hwhole : Role.catalog.read maxDepth t = .ok c := hread
  rw [ofJson, Json.read, ofText_continued hspelled (Layout.catalog.closed_of_read hwhole) more]
  dsimp only
  rw [hread]
  by_cases hmore : Blank more.toList
  · rw [if_pos hmore, tokens_eq_nil_iff.mpr hmore]
    rfl
  · rw [if_neg hmore]
    cases htokens : tokens more.toList with
    | nil => exact absurd (tokens_eq_nil_iff.mp htokens) hmore
    | cons => rfl

/-- A catalog text that lost its end. -/
theorem ofJson_front {front back : String} {c : Catalog} (h : ofJson (front ++ back) = .ok c)
    (hback : ¬ Blank back.toList) : ∃ f, ofJson front = .error (.fault f) := by
  obtain ⟨t, hspelled, hread⟩ := ofJson_eq_ok_iff.mp h
  obtain ⟨v, hcut, hdocument⟩ := ofText_front hspelled hback
  have hwhole : Role.catalog.read maxDepth t = .ok c := hread
  have hleft : Shapely (readCatalog maxDepth v) := hcut.shapely .catalog c hwhole
  have hshapely : Shapely (ofJson front) := by
    rw [ofJson, Json.read, hdocument]
    exact hleft.bind fun c _ => .ok c
  cases hfront : ofJson front with
  | ok c' =>
    rw [ofJson_continued hfront, if_neg hback] at h
    cases h
  | error e =>
    cases e with
    | fault f => exact ⟨f, rfl⟩
    | shape p => exact absurd hfront (hshapely p)

/-- **A catalog text that lost its end, or goes on, is no catalog text.** Of a text that is accepted no
    front is accepted that ends before the last character that is no blank, and what is reported is that
    the text is at fault or too short, never that something has a wrong shape. If anything but blanks
    stands behind the text, it is malformed. -/
theorem ofJson_cut_or_continued {text : String} {c : Catalog} (h : ofJson text = .ok c) :
    (∀ front back : String, text = front ++ back → ¬ Blank back.toList →
      ∃ f, ofJson front = .error (.fault f)) ∧
    (∀ more : String, ¬ Blank more.toList → ofJson (text ++ more) = .error (.fault .malformed)) ∧
    ∀ more : String, Blank more.toList → ofJson (text ++ more) = .ok c := by
  refine ⟨?_, fun more hmore => ?_, fun more hmore => ?_⟩
  · rintro front back rfl hback
    exact ofJson_front h hback
  · rw [ofJson_continued h, if_neg hmore]
  · rw [ofJson_continued h, if_pos hmore]

/-- The front of a text, up to behind the last member of a callback. -/
def sampleFront : String :=
  "\x7b\"functions\":[\x7b\"name\":\"f\",\"params\":[\x7b\"name\":\"p\"," ++
    "\"type\":\x7b\"callback\":\x7b\"return\":\"i32\""

/-- What follows, up to inside an escape of a member that is skipped. -/
def sampleMiddle : String := "\x7d\x7d\x7d]\x7d],\"x\":[\"\\u00"

/-- The rest of the text. -/
def sampleBack : String := "e4\"],\"buffer_kinds\":[[-12,\"k\"]]\x7d"

theorem ofJson_cut_or_continued_sample :
    (∃ f, ofJson sampleFront = .error (.fault f)) ∧
    (∃ f, ofJson (sampleFront ++ sampleMiddle) = .error (.fault f)) ∧
    ofJson (sampleFront ++ (sampleMiddle ++ sampleBack) ++ " ,") = .error (.fault .malformed) := by
  have h : ofJson (sampleFront ++ (sampleMiddle ++ sampleBack)) =
      .ok ⟨[⟨"f", "<catalog>", [⟨"p", .callback [] (.plain .i32), .input⟩], .plain .void⟩],
        [⟨-12, "k"⟩]⟩ := by
    decide +kernel
  obtain ⟨hcut, hcontinued, -⟩ := ofJson_cut_or_continued h
  exact ⟨hcut sampleFront (sampleMiddle ++ sampleBack) rfl (by decide +kernel),
    hcut (sampleFront ++ sampleMiddle) sampleBack String.append_assoc.symm (by decide +kernel),
    hcontinued " ," (by decide +kernel)⟩

end HostGlue.Catalog
