import HostGlue.Layout
import HostGlue.Proofs.Text.Literals

/-!
# Reading a text from its start

What a text was put together from can be read back where every part shows its own end. This file
fixes three ways in which a part does that:

* it is a run of elements of one sort, and what comes next is of another (`append_cons_inj`);
* it is a literal, which ends at its first bare quote (`Text.Quoted.decode?_encode`);
* it is a block, whose lines stand deeper than the line that closes it (`Code.block_read`).
-/

namespace HostGlue

/-! ## 1. Runs -/

/-- **A run of elements of one sort ends where the next is of another.** So two lists that begin with
    such runs are equal only if the runs are, and what follows them. -/
theorem Text.append_cons_inj {α : Type} {p : α → Prop} {x y : α} (hx : ¬ p x) (hy : ¬ p y) :
    ∀ {as bs s t : List α}, (∀ a ∈ as, p a) → (∀ b ∈ bs, p b) →
      as ++ x :: s = bs ++ y :: t → as = bs ∧ x = y ∧ s = t
  | [], [], _, _, _, _, h => ⟨rfl, List.cons.inj h⟩
  | [], b :: _, _, _, _, hb, h => by
      have e : x = b := (List.cons.inj h).1
      exact absurd (hb b List.mem_cons_self) (e ▸ hx)
  | a :: _, [], _, _, ha, _, h => by
      have e : a = y := (List.cons.inj h).1
      exact absurd (ha a List.mem_cons_self) (e ▸ hy)
  | a :: as, b :: bs, s, t, ha, hb, h => by
      rw [List.cons_append, List.cons_append] at h
      obtain ⟨e, hrest⟩ := List.cons.inj h
      obtain ⟨hab, hxy, hst⟩ := append_cons_inj hx hy (fun c hc => ha c (List.mem_cons_of_mem a hc))
        (fun c hc => hb c (List.mem_cons_of_mem b hc)) hrest
      exact ⟨by rw [e, hab], hxy, hst⟩

/-! ## 2. Literals -/

namespace Text.Quoted

/-- **A literal is read back**, whatever stands behind it. -/
theorem decode?_encode (value : String) (rest : List Char) :
    decode? ((encode value).toList ++ rest) = some (value.toList, rest) := by
  rw [← Lexer.read_standard, Lexer.read_encode]

theorem encode_read {u v s t : String} (h : encode u ++ s = encode v ++ t) : u = v ∧ s = t := by
  have e := congrArg (fun x : String => decode? x.toList) h
  simp only [String.toList_append, decode?_encode, Option.some.injEq, Prod.mk.injEq] at e
  exact ⟨String.toList_injective e.1, String.toList_injective e.2⟩

end Text.Quoted

/-! ## 3. Blocks -/

theorem openLine_inj {h k : String} (e : openLine h = openLine k) : h = k := by
  have hlength : ∀ x : String, x ≠ "" → (x ++ " \x7b") ≠ "\x7b" := by
    intro x _ he
    have hl := congrArg (fun s : String => s.toList.length) he
    simp only [String.toList_append, List.length_append] at hl
    have hone : "\x7b".toList.length = 1 := rfl
    have htwo : " \x7b".toList.length = 2 := rfl
    omega
  unfold openLine at e
  split at e
  · rename_i hh
    split at e
    · rename_i hk
      rw [hh, hk]
    · rename_i hk
      exact absurd e.symm (hlength k hk)
  · rename_i hh
    split at e
    · exact absurd e (hlength h hh)
    · exact (String.append_left_inj " \x7b").mp e

namespace Code

mutual

/-- Nothing of a tree stands less deep than the tree. -/
theorem le_depth : ∀ (d : Nat) (c : Code), ∀ l ∈ c.lines d, d ≤ l.depth
  | d, .line content, l, hl => by
      rw [lines, List.mem_singleton] at hl
      subst hl
      exact Nat.le_refl d
  | d, .block header suffix body, l, hl => by
      rw [lines, List.cons_append, List.mem_cons, List.mem_append, List.mem_singleton] at hl
      rcases hl with rfl | hl | rfl
      · exact Nat.le_refl d
      · exact Nat.le_of_succ_le (le_depth_body (d + 1) body l hl)
      · exact Nat.le_refl d

theorem le_depth_body : ∀ (d : Nat) (cs : List Code), ∀ l ∈ bodyLines d cs, d ≤ l.depth
  | _, [], _, hl => absurd hl List.not_mem_nil
  | d, c :: cs, l, hl => by
      rw [bodyLines] at hl
      rcases List.mem_append.mp hl with hl | hl
      · exact le_depth d c l hl
      · exact le_depth_body d cs l hl

end

/-- **A block is read back**: what stands before its body, the lines of the body, and what follows the
    block. -/
theorem block_read {d : Nat} {h k s : String} {as bs : List Code} {ls ms : List Line}
    (e : lines d (.block h s as) ++ ls = lines d (.block k s bs) ++ ms) :
    h = k ∧ bodyLines (d + 1) as = bodyLines (d + 1) bs ∧ ls = ms := by
  rw [lines, lines, List.cons_append, List.cons_append, List.cons_append, List.cons_append,
    List.append_assoc, List.append_assoc] at e
  obtain ⟨hopen, hrest⟩ := List.cons.inj e
  have hout : ∀ content : String, ¬ d + 1 ≤ (Line.mk d content).depth := fun _ =>
    Nat.not_succ_le_self d
  obtain ⟨hbody, -, hls⟩ := @Text.append_cons_inj Line (fun l => d + 1 ≤ l.depth) _ _ (hout _)
    (hout _) _ _ _ _ (le_depth_body (d + 1) as) (le_depth_body (d + 1) bs) hrest
  exact ⟨openLine_inj (Line.mk.inj hopen).2, hbody, hls⟩

end Code

end HostGlue
