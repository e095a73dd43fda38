import HostGlue.Error
import HostGlue.Proofs.Script.Reading
import Mathlib.Data.List.Chain

/-!
# Reading a type from its notation

The notation of a type in diagnostics has no bracket behind the result of a callback, and callbacks stand
in parameters as well as in results. It is read back all the same:

* `Outline`, what the notation shows of a type: not the names of the parameters of a callback, nor their
  directions;
* **`Outline.read`: of a text that begins with the notation of an outline the outline is determined, and
  where its notation ends**, by recursion on outlines and on lists of them. The words for plain types are
  such that none begins another (`Plain.read`), and what follows an outline in a list of parameters, a
  comma or the closing bracket, begins no notation;
* `Spaced`, that no blank stands directly behind a letter. The notation is spaced, the wording around it
  is not, so a message shows where the type that it names begins (`Spaced.read`);
* **`Ty.text_unambiguous`, for types and for the errors that name them.**
-/

namespace HostGlue

open Script (commaList commaTail)

/-! ## 1. Outlines -/

/-- A type without the names and the directions of the parameters of callbacks. -/
inductive Outline where
  | plain (p : Plain)
  | callback (params : List Outline) (result : Outline)

mutual

/-- What is left of a type without the names and the directions of parameters. -/
def Ty.outline : Ty → Outline
  | .plain p => .plain p
  | .callback params result => .callback (Param.outlines params) result.outline
termination_by structural t => t

/-- The outline of a parameter's type. -/
def Param.outline : Param → Outline
  | ⟨_, ty, _⟩ => ty.outline
termination_by structural p => p

/-- The outlines of the types of a parameter list. -/
def Param.outlines : List Param → List Outline
  | [] => []
  | p :: ps => p.outline :: Param.outlines ps
termination_by structural ps => ps

end

namespace Outline

mutual

/-- The notation of an outline. -/
def text : Outline → String
  | plain p => p.name
  | callback params result => "callback(" ++ commaList (texts params) ++ ") -> " ++ result.text
termination_by structural o => o

/-- The notations of a list of outlines. -/
def texts : List Outline → List String
  | [] => []
  | o :: os => o.text :: texts os
termination_by structural os => os

end

/-- The notation of a callback, character by character: the list of parameters ends with a bracket. -/
theorem toList_text_callback (params : List Outline) (result : Outline) :
    (callback params result).text.toList =
      "callback(".toList ++
        ((commaList (texts params)).toList ++ ')' :: (" -> ".toList ++ result.text.toList)) := by
  have hbracket : ") -> ".toList = ')' :: " -> ".toList := rfl
  rw [text, String.toList_append, String.toList_append, String.toList_append, hbracket,
    List.append_assoc, List.append_assoc, List.cons_append]

end Outline

mutual

/-- **The notation of a type is that of its outline.** -/
theorem Ty.text_outline : ∀ t : Ty, t.outline.text = t.text
  | .plain _ => rfl
  | .callback params result => by
      have hparams := Param.texts_outlines params
      have hresult := Ty.text_outline result
      rw [Ty.outline, Outline.text, Ty.text, hparams, hresult, commaList]

theorem Param.text_outline : ∀ p : Param, p.outline.text = p.typeText
  | ⟨_, ty, _⟩ => Ty.text_outline ty

theorem Param.texts_outlines (ps : List Param) :
    Outline.texts (Param.outlines ps) = Param.typeTexts ps := by
  cases ps with
  | nil => rfl
  | cons p ps =>
    have hfirst := Param.text_outline p
    have hothers := Param.texts_outlines ps
    rw [Param.outlines, Outline.texts, Param.typeTexts, hfirst, hothers]

end

/-! ## 2. Where a notation ends -/

namespace Plain

theorem mem_all (p : Plain) : p ∈ all := by
  cases p <;> decide

/-- The word for a plain type begins with a letter, and not as a callback does. -/
theorem begins (p : Plain) : ∃ c cs, p.name.toList = c :: cs ∧ c.isAlpha = true ∧ c ≠ 'c' := by
  cases p <;> exact ⟨_, _, rfl, by decide, by decide⟩

/-- **The words for plain types end where they end**: none of them begins another. -/
theorem read {p q : Plain} {s t : List Char} (h : p.name.toList ++ s = q.name.toList ++ t) :
    p = q ∧ s = t := by
  have hfree : ∀ p ∈ all, ∀ q ∈ all, p.name.toList <+: q.name.toList → p = q := by decide
  have hpq : p = q := by
    rcases List.prefix_or_prefix_of_prefix ⟨s, h⟩ ⟨t, rfl⟩ with hp | hq
    · exact hfree p p.mem_all q q.mem_all hp
    · exact (hfree q q.mem_all p p.mem_all hq).symm
  subst hpq
  exact ⟨rfl, List.append_cancel_left h⟩

end Plain

namespace Outline

/-- A notation begins with a letter. -/
theorem begins (o : Outline) : ∃ c cs, o.text.toList = c :: cs ∧ c.isAlpha = true := by
  cases o with
  | plain p =>
    obtain ⟨c, cs, hp, hc, -⟩ := p.begins
    exact ⟨c, cs, by rw [text, hp], hc⟩
  | callback params result =>
    exact ⟨'c', _, by rw [toList_text_callback]; rfl, by decide⟩

/-- What begins with a letter is no closing bracket. -/
theorem not_closed (o : Outline) {s t : List Char} : ')' :: s ≠ o.text.toList ++ t := by
  obtain ⟨c, cs, ho, hc⟩ := o.begins
  intro h
  rw [ho, List.cons_append] at h
  rw [← (List.cons.inj h).1] at hc
  exact absurd hc (by decide)

mutual

/-- **A text that begins with a notation** is that of one outline only, and shows where it ends. -/
theorem read : ∀ (o o' : Outline) {s t : List Char},
    o.text.toList ++ s = o'.text.toList ++ t → o = o' ∧ s = t
  | plain p, plain q, _, _, h => by
      rw [text, text] at h
      obtain ⟨rfl, hst⟩ := Plain.read h
      exact ⟨rfl, hst⟩
  | plain p, callback params result, _, _, h => by
      obtain ⟨c, cs, hp, -, hc⟩ := p.begins
      rw [toList_text_callback, text, hp] at h
      exact absurd (List.cons.inj h).1 hc
  | callback params result, plain q, _, _, h => by
      obtain ⟨c, cs, hq, -, hc⟩ := q.begins
      rw [toList_text_callback, text, hq] at h
      exact absurd (List.cons.inj h).1.symm hc
  | callback params result, callback params' result', s, t, h => by
      rw [toList_text_callback, toList_text_callback] at h
      simp only [List.append_assoc, List.cons_append] at h
      obtain ⟨hparams, hbehind⟩ := read_params params params' (List.append_cancel_left h)
      obtain ⟨hresult, hst⟩ := read result result' (List.append_cancel_left hbehind)
      exact ⟨by rw [hparams, hresult], hst⟩

/-- A list of parameters is read up to its closing bracket. -/
theorem read_params : ∀ (os os' : List Outline) {s t : List Char},
    (commaList (texts os)).toList ++ ')' :: s = (commaList (texts os')).toList ++ ')' :: t →
      os = os' ∧ s = t
  | [], [], _, _, h => ⟨rfl, (List.cons.inj h).2⟩
  | [], o' :: os', _, _, h => by
      rw [texts, texts, Script.commaList_cons_toList, List.append_assoc] at h
      exact absurd h o'.not_closed
  | o :: os, [], _, _, h => by
      rw [texts, texts, Script.commaList_cons_toList, List.append_assoc] at h
      exact absurd h.symm o.not_closed
  | o :: os, o' :: os', _, _, h => by
      rw [texts, texts, Script.commaList_cons_toList, Script.commaList_cons_toList,
        List.append_assoc, List.append_assoc] at h
      obtain ⟨hfirst, hothers⟩ := read o o' h
      obtain ⟨hos, hst⟩ := read_others os os' hothers
      exact ⟨by rw [hfirst, hos], hst⟩

/-- The other parameters of a list. -/
theorem read_others : ∀ (os os' : List Outline) {s t : List Char},
    commaTail (texts os) ++ ')' :: s = commaTail (texts os') ++ ')' :: t → os = os' ∧ s = t
  | [], [], _, _, h => ⟨rfl, (List.cons.inj h).2⟩
  | [], _ :: _, _, _, h => absurd (List.cons.inj h).1 (by decide)
  | _ :: _, [], _, _, h => absurd (List.cons.inj h).1 (by decide)
  | o :: os, o' :: os', _, _, h => by
      rw [texts, texts, Script.commaTail_cons, Script.commaTail_cons] at h
      simp only [List.append_assoc, List.cons_append] at h
      obtain ⟨hfirst, hothers⟩ := read o o' (List.cons.inj (List.cons.inj h).2).2
      obtain ⟨hos, hst⟩ := read_others os os' hothers
      exact ⟨by rw [hfirst, hos], hst⟩

end

theorem eq_of_text {o o' : Outline} (h : o.text = o'.text) : o = o' :=
  (read o o' (congrArg (fun s => s.toList ++ []) h)).1

end Outline

/-! ## 3. Where a notation begins -/

/-- No blank stands directly behind a letter. -/
def Spaced (cs : List Char) : Prop := cs.IsChain fun c d => d = ' ' → c.isAlpha = false

instance : DecidablePred Spaced :=
  fun cs => inferInstanceAs (Decidable (cs.IsChain fun c d => d = ' ' → c.isAlpha = false))

namespace Spaced

variable {as bs cs : List Char} {c x y : Char}

theorem cons (hc : c.isAlpha = false) (h : Spaced cs) : Spaced (c :: cs) :=
  List.isChain_cons.mpr ⟨fun _ _ _ => hc, h⟩

theorem append_cons (ha : Spaced as) (hc : c ≠ ' ') (hb : Spaced (c :: bs)) :
    Spaced (as ++ c :: bs) := by
  refine List.IsChain.append ha hb fun _ _ d hd hblank => ?_
  obtain rfl := Option.some.inj hd
  exact absurd hblank hc

theorem append_commaTail (ha : Spaced as) {xs : List String} (h : Spaced (commaTail xs)) :
    Spaced (as ++ commaTail xs) := by
  cases xs with
  | nil => rwa [Script.commaTail, List.flatMap_nil, List.append_nil]
  | cons x xs => exact ha.append_cons (by decide) h

/-- A blank directly behind a letter is not found in what is spaced. -/
theorem not_mem (h : Spaced cs) (hx : x.isAlpha = true) : cs ≠ as ++ x :: ' ' :: bs := by
  rintro rfl
  have hletter := (List.isChain_append_cons_cons.mp h).2.1 rfl
  exact absurd hx (Bool.eq_false_iff.mp hletter)

/-- What is spaced goes on to the next blank directly behind a letter. -/
theorem eq_of_cons (h : Spaced cs) (hx : x.isAlpha = true)
    (heq : y :: ' ' :: cs = as ++ x :: ' ' :: bs) : cs = bs := by
  cases as with
  | nil => exact (List.cons.inj (List.cons.inj heq).2).2
  | cons a as =>
    cases as with
    | nil =>
      obtain rfl := (List.cons.inj (List.cons.inj heq).2).1
      exact absurd hx (by decide)
    | cons b as => exact absurd (List.cons.inj (List.cons.inj heq).2).2 (h.not_mem hx)

/-- **What is spaced begins behind the last blank that stands directly behind a letter.** -/
theorem read {us vs : List Char} (hu : Spaced us) (hv : Spaced vs) (hx : x.isAlpha = true)
    (hy : y.isAlpha = true) (h : as ++ x :: ' ' :: us = bs ++ y :: ' ' :: vs) : us = vs := by
  rcases List.append_eq_append_iff.mp h with ⟨ws, -, heq⟩ | ⟨ws, -, heq⟩
  · exact hu.eq_of_cons hy heq
  · exact (hv.eq_of_cons hx heq).symm

end Spaced

namespace Outline

mutual

/-- In a notation no blank stands directly behind a letter. -/
theorem spaced : ∀ o : Outline, Spaced o.text.toList
  | plain p => by
      rw [text]
      cases p <;> decide
  | callback params result => by
      have hresult : Spaced (" -> ".toList ++ result.text.toList) :=
        .cons (by decide) (.cons (by decide) (.cons (by decide) (.cons (by decide) (spaced result))))
      have hclose : Spaced (')' :: (" -> ".toList ++ result.text.toList)) := .cons (by decide) hresult
      have hparams := (spaced_params params).append_cons (by decide) hclose
      have hopen : "callback(".toList = "callback".toList ++ ['('] := rfl
      rw [toList_text_callback, hopen, List.append_assoc, List.singleton_append]
      exact Spaced.append_cons (by decide) (by decide) (.cons (by decide) hparams)

/-- Neither does one in a list of parameters. -/
theorem spaced_params : ∀ os : List Outline, Spaced (commaList (texts os)).toList
  | [] => .nil
  | o :: os => by
      rw [texts, Script.commaList_cons_toList]
      exact (spaced o).append_commaTail (spaced_others os)

theorem spaced_others : ∀ os : List Outline, Spaced (commaTail (texts os))
  | [] => .nil
  | o :: os => by
      rw [texts, Script.commaTail_cons]
      exact .cons (by decide) (.cons (by decide) ((spaced o).append_commaTail (spaced_others os)))

end

/-- A notation ends with the word for a plain type. -/
theorem ends : ∀ o : Outline, ∃ p : Plain, p.name.toList <:+ o.text.toList
  | plain p => ⟨p, List.suffix_rfl⟩
  | callback params result => by
      obtain ⟨p, hp⟩ := ends result
      refine ⟨p, hp.trans ?_⟩
      rw [text, String.toList_append]
      exact List.suffix_append _ _

end Outline

/-! ## 4. Errors -/

/-- What stands behind a type that a message names. -/
def TagKind.behind : Option TagKind → String
  | none => ""
  | some kind => " as " ++ kind.text

/-- What the end of a message that names a type may be, by what stands behind the type: every notation
    ends with the word for a plain type. -/
def TagKind.lastWords : Option TagKind → List String
  | none => Plain.all.map Plain.name
  | some kind => [behind (some kind)]

theorem TagKind.eq_of_lastWords {k k' : Option TagKind} : ∀ v ∈ lastWords k, ∀ w ∈ lastWords k',
    v.toList <:+ w.toList → k = k' := by
  cases k with
  | none =>
    cases k' with
    | none => exact fun _ _ _ _ _ => rfl
    | some b => cases b <;> decide
  | some a =>
    cases k' with
    | none => cases a <;> decide
    | some b => cases a <;> cases b <;> decide

namespace Outline

theorem ends_behind (o : Outline) (k : Option TagKind) (as : List Char) :
    ∃ w ∈ TagKind.lastWords k, w.toList <:+ as ++ (o.text.toList ++ (TagKind.behind k).toList) := by
  cases k with
  | none =>
    obtain ⟨p, hp⟩ := o.ends
    refine ⟨p.name, List.mem_map_of_mem p.mem_all, List.IsSuffix.trans ?_ (List.suffix_append as _)⟩
    rwa [TagKind.behind, String.toList_empty, List.append_nil]
  | some kind =>
    refine ⟨_, List.mem_singleton_self _, List.IsSuffix.trans ?_ (List.suffix_append as _)⟩
    exact List.suffix_append _ _

/-- **A message shows whether anything stands behind the type that it names**, and what. -/
theorem behind_read {o o' : Outline} {k k' : Option TagKind} {as bs : List Char}
    (h : as ++ (o.text.toList ++ (TagKind.behind k).toList) =
      bs ++ (o'.text.toList ++ (TagKind.behind k').toList)) : k = k' := by
  obtain ⟨v, hv, hp⟩ := o.ends_behind k as
  obtain ⟨w, hw, hq⟩ := o'.ends_behind k' bs
  rw [h] at hp
  rcases List.suffix_or_suffix_of_suffix hp hq with hpq | hqp
  · exact TagKind.eq_of_lastWords v hv w hw hpq
  · exact (TagKind.eq_of_lastWords w hw v hv hqp).symm

end Outline

/-- A wording that ends with a blank directly behind a letter. -/
def Introduces (wording : String) : Prop :=
  ∃ as c, c.isAlpha = true ∧ wording.toList = as ++ [c, ' ']

namespace GlueError

/-- The type that the message of an error names. -/
def named? : GlueError → Option Ty
  | unsupportedType _ _ cause => some cause.ty
  | malformedStatus _ _ (.notIntegral32 _ ty) => some ty
  | badInitializer _ _ (.notCallback _ ty) => some ty
  | _ => none

/-- Where the type stands in the message. -/
theorem message_named {e : GlueError} {t : Ty} (h : e.named? = some t) (w : Wording) :
    ∃ front wording k, Introduces wording ∧
      e.message w = front ++ wording ++ (t.text ++ TagKind.behind k) := by
  unfold named? at h
  split at h
  · rename_i function owner cause
    cases h
    refine ⟨"unsupported extern method " ++ function ++ " in " ++ owner ++ ": ", "cannot marshal type ",
      some cause.kind, ⟨"cannot marshal typ".toList, 'e', by decide, rfl⟩, ?_⟩
    change _ ++ ("cannot marshal type " ++ _ ++ " as " ++ _) = _ ++ (_ ++ (" as " ++ _))
    simp only [String.append_assoc]
  · rename_i function owner param ty
    cases h
    refine ⟨"unsupported extern method " ++ function ++ " in " ++ owner ++ ": " ++
        ("status parameter " ++ param), " must be i32 or u32, found ", none,
      ⟨" must be i32 or u32, foun".toList, 'd', by decide, rfl⟩, ?_⟩
    change _ ++ ("status parameter " ++ _ ++ _ ++ _) = _ ++ (_ ++ "")
    simp only [String.append_assoc, String.append_empty]
  · rename_i function owner param ty
    cases h
    refine ⟨"bad initialize signature for " ++ function ++ " in " ++ owner ++ ": " ++
        ("parameter " ++ param), " must be a callback, found ", none,
      ⟨" must be a callback, foun".toList, 'd', by decide, rfl⟩, ?_⟩
    change _ ++ ("parameter " ++ _ ++ _ ++ _) = _ ++ (_ ++ "")
    simp only [String.append_assoc, String.append_empty]
  · cases h

/-- **The message of an error shows the type that it names**, but for names and directions. -/
theorem outline_of_message {w w' : Wording} {e e' : GlueError} {t u : Ty} (ht : e.named? = some t)
    (hu : e'.named? = some u) (h : e.message w = e'.message w') : t.outline = u.outline := by
  obtain ⟨front, wording, k, ⟨as, c, hc, hwording⟩, hmessage⟩ := message_named ht w
  obtain ⟨front', wording', k', ⟨bs, d, hd, hwording'⟩, hmessage'⟩ := message_named hu w'
  rw [hmessage, hmessage', ← t.text_outline, ← u.text_outline] at h
  have hlist := congrArg String.toList h
  simp only [String.toList_append, hwording, hwording'] at hlist
  obtain rfl := Outline.behind_read hlist
  have hfront : (front.toList ++ as) ++ c :: ' ' :: t.outline.text.toList =
      (front'.toList ++ bs) ++ d :: ' ' :: u.outline.text.toList := by
    refine (List.append_left_inj (TagKind.behind k).toList).mp ?_
    simpa only [List.append_assoc, List.cons_append, List.nil_append] using hlist
  have htext := t.outline.spaced.read u.outline.spaced hc hd hfront
  exact Outline.eq_of_text (String.toList_injective htext)

end GlueError

/-! ## 5. Types -/

/-- **The notation of a type is unambiguous.** Two types have the same notation exactly if they are equal
    but for the names and the directions of the parameters of callbacks, and no notation begins another.
    So errors with the same message that name types name types of the same outline, whatever wording
    messages are given. -/
theorem Ty.text_unambiguous :
    (∀ t u : Ty, t.text = u.text ↔ t.outline = u.outline) ∧
    (∀ (t u : Ty) (rest : String), t.text ++ rest = u.text → rest = "") ∧
    ∀ (w w' : Wording) (e e' : GlueError) (t u : Ty), e.named? = some t → e'.named? = some u →
      e.message w = e'.message w' → t.outline = u.outline := by
  refine ⟨fun t u => ⟨fun h => ?_, fun h => ?_⟩, fun t u rest h => ?_,
    fun _ _ _ _ _ _ => GlueError.outline_of_message⟩
  · rw [← t.text_outline, ← u.text_outline] at h
    exact Outline.eq_of_text h
  · rw [← t.text_outline, h, u.text_outline]
  · rw [← t.text_outline, ← u.text_outline] at h
    have hlist := congrArg String.toList h
    rw [String.toList_append, ← List.append_nil u.outline.text.toList] at hlist
    exact String.toList_injective (t.outline.read u.outline hlist).2

/-- A type with callbacks on either side of an arrow. -/
def Ty.nested (name : String) (direction : Direction) : Ty :=
  .callback [⟨name, .callback [] (.plain .i32), direction⟩]
    (.callback [⟨name, .plain .i32, direction⟩] (.plain .void))

theorem Ty.text_unambiguous_nested :
    (nested "f" .input).text = "callback(callback() -> i32) -> callback(i32) -> void" ∧
    (nested "f" .input).text = (nested "g" .output).text ∧
    (nested "f" .input).outline = (nested "g" .output).outline := by
  let w : Wording := ⟨fun _ _ => "", fun _ _ => ""⟩
  have hmessage :
      (GlueError.malformedStatus "open" "env" (.notIntegral32 "s" (nested "f" .input))).message w =
        (GlueError.malformedStatus "open" "env" (.notIntegral32 "s" (nested "g" .output))).message w := by
    decide +kernel
  have houtline := text_unambiguous.2.2 w w _ _ (nested "f" .input) (nested "g" .output) rfl rfl hmessage
  exact ⟨by decide +kernel, (text_unambiguous.1 _ _).mpr houtline, houtline⟩

end HostGlue
