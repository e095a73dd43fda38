import HostGlue.Proofs.File.Change

/-!
# Lawful stores

What a run does to files follows from a few laws of its store, whatever the store is and whatever else
its operations do. This file fixes

* `answer` and `left`, what an operation answers in a state and the state it leaves;
* `LawfulStore`, the operations of a store over states with files, and the laws: reading finds the file a
  path leads to, making directories leaves all files as they are, and writing stores a file or leaves
  all files as they are. What was made or stored is made or stored again, and paths lead on where they
  led. A fault may be any, and so may the state behind a directory that could not be made;
* `LawfulStore.text_of_leads`, that a file that is as it was is read as before;
* **`Tree.lawful`, that trees of files are such a store.**
-/

namespace HostGlue.File

variable {σ α : Type}

/-! ## 1. Operations in a state -/

/-- What an operation answers in a state. -/
def answer (op : StateM σ α) (s : σ) : α := (op.run s).run.1

/-- The state an operation leaves. -/
def left (op : StateM σ α) (s : σ) : σ := (op.run s).run.2

theorem run_eq (op : StateM σ α) (s : σ) : op.run s = pure (answer op s, left op s) := rfl

/-! ## 2. Laws -/

/-- A store over states with files: where paths lead, which files there are, and what is known of the
    operations. -/
structure LawfulStore (σ : Type) extends Store (StateM σ) where
  Place : Type
  locate : σ → String → Except Fault Place
  file? : σ → Place → Option ByteArray
  /-- Reading changes nothing. -/
  left_read : ∀ s path, left (read path) s = s
  /-- What is read is the file a path leads to. -/
  answer_read : ∀ s path content, answer (read path) s = .ok content ↔
    ∃ place, locate s path = .ok place ∧ file? s place = some content
  /-- Making directories changes no file, whether or not it ends well. -/
  file_made : ∀ s path place, file? (left (makeDirectories path) s) place = file? s place
  /-- Nor does it lead a path astray. -/
  locate_made : ∀ s above path place, locate s path = .ok place →
    locate (left (makeDirectories above) s) path = .ok place
  /-- Writing that fails changes no file. -/
  file_unwritten : ∀ s path content f place, answer (write path content) s = .error f →
    file? (left (write path content) s) place = file? s place
  /-- Writing that ends well stores the content where the path leads, and changes no other file. -/
  file_written : ∀ s path content, answer (write path content) s = .ok () →
    ∃ place, locate (left (write path content) s) path = .ok place ∧
      file? (left (write path content) s) place = some content ∧
      ∀ q, q ≠ place → file? (left (write path content) s) q = file? s q
  /-- Nor does it lead a path astray. -/
  locate_written : ∀ s file content path place, answer (write file content) s = .ok () →
    locate s path = .ok place → locate (left (write file content) s) path = .ok place
  /-- Directories that were made are there, also behind a file that was written then, and to make them
      again does nothing. -/
  made_again : ∀ s above path content, answer (makeDirectories above) s = .ok () →
    answer (write path content) (left (makeDirectories above) s) = .ok () →
    let u := left (write path content) (left (makeDirectories above) s)
    answer (makeDirectories above) u = .ok () ∧ left (makeDirectories above) u = u
  /-- A file that was written is written again, and then no file changes. -/
  written_again : ∀ s path content, answer (write path content) s = .ok () →
    answer (write path content) (left (write path content) s) = .ok () ∧
    ∀ place, file? (left (write path content) (left (write path content) s)) place =
      file? (left (write path content) s) place

namespace LawfulStore

variable (L : LawfulStore σ)

/-- Two states have the same files, with the same contents. -/
def SameFiles (s u : σ) : Prop := ∀ place, L.file? u place = L.file? s place

/-- Paths that led somewhere in a state lead there in another one. -/
def Leads (s u : σ) : Prop := ∀ path place, L.locate s path = .ok place → L.locate u path = .ok place

/-- What the text of a file is in a state. -/
def text (s : σ) (path : String) : Except Fault String := answer (L.readText path) s

theorem run_readText (s : σ) (path : String) : (L.readText path).run s = pure (L.text s path, s) := by
  have hleft : left (L.readText path) s = s := by
    unfold left Store.readText
    rw [StateT.run_bind, run_eq, pure_bind, L.left_read]
    cases answer (L.read path) s with
    | error f => rfl
    | ok bytes =>
      dsimp only
      cases String.fromUTF8? bytes <;> rfl
  rw [run_eq, hleft]
  rfl

/-- A text is that of a content that is read. -/
theorem text_eq_ok {s : σ} {path text : String} : L.text s path = .ok text ↔
    ∃ bytes, answer (L.read path) s = .ok bytes ∧ String.fromUTF8? bytes = some text := by
  unfold LawfulStore.text
  rw [answer, Store.readText, StateT.run_bind, run_eq, pure_bind]
  cases answer (L.read path) s with
  | error f =>
    constructor
    · intro h
      cases h
    · rintro ⟨bytes, h, -⟩
      cases h
  | ok bytes =>
    dsimp only
    cases hbytes : String.fromUTF8? bytes with
    | none =>
      constructor
      · intro h
        cases h
      · rintro ⟨bytes', ⟨⟩, h⟩
        rw [hbytes] at h
        cases h
    | some text' =>
      constructor
      · rintro ⟨⟩
        exact ⟨bytes, rfl, hbytes⟩
      · rintro ⟨bytes', ⟨⟩, h⟩
        rw [hbytes] at h
        cases h
        rfl

/-- **A file that is as it was is read as before**, if paths lead where they led. -/
theorem text_of_leads {s u : σ} (h : L.Leads s u) {path text : String}
    (hread : L.text s path = .ok text)
    (hfile : ∀ place, L.locate s path = .ok place → L.file? u place = L.file? s place) :
    L.text u path = .ok text := by
  obtain ⟨bytes, hbytes, htext⟩ := L.text_eq_ok.mp hread
  obtain ⟨place, hplace, hcontent⟩ := (L.answer_read s path bytes).mp hbytes
  refine L.text_eq_ok.mpr ⟨bytes, (L.answer_read u path bytes).mpr ⟨place, h path place hplace, ?_⟩, htext⟩
  rw [hfile place hplace, hcontent]

end LawfulStore

/-! ## 3. Trees -/

namespace Tree

theorem run_write (t : Tree) (path : String) (content : ByteArray) :
    (store.write path content).run t = pure (match t.write path content with
      | .error f => (.error f, t)
      | .ok u => (.ok (), u)) := by
  simp only [store, StateT.run_bind, StateT.run_get, pure_bind]
  cases t.write path content <;> rfl

theorem answer_of_write {t u : Tree} {path : String} {content : ByteArray}
    (h : t.write path content = .ok u) :
    answer (store.write path content) t = .ok () ∧ left (store.write path content) t = u := by
  rw [answer, left, run_write, h]
  exact ⟨rfl, rfl⟩

/-- A content that is stored leaves the tree that is written. -/
theorem write_of_answer {t : Tree} {path : String} {content : ByteArray}
    (h : answer (store.write path content) t = .ok ()) :
    t.write path content = .ok (left (store.write path content) t) := by
  cases hw : t.write path content with
  | error f =>
    rw [answer, run_write, hw] at h
    cases h
  | ok u => rw [(answer_of_write hw).2]

/-- **Trees of files are a lawful store.** -/
def lawful : LawfulStore Tree where
  toStore := store
  Place := Location
  locate := locate
  file? := file?
  left_read _ _ := rfl
  answer_read _ _ _ := read_eq_ok
  file_made t path place := (makeDirectories_grows t path).sameFiles place
  locate_made t above _ _ h := (makeDirectories_grows t above).keeps.locate h
  file_unwritten t path content f place h := by
    cases hw : t.write path content with
    | error f' => rw [left, run_write, hw]; rfl
    | ok u =>
      rw [(answer_of_write hw).1] at h
      cases h
  file_written t path content h := by
    obtain ⟨place, hstored, hplace⟩ := stored_of_write (write_of_answer h)
    exact ⟨place, hstored.keeps.locate hplace, hstored.file?, fun q hq => hstored.others hq⟩
  locate_written t file content path place h hplace := by
    obtain ⟨_, hstored, -⟩ := stored_of_write (write_of_answer h)
    exact hstored.keeps.locate hplace
  made_again t above path content hmade hwritten := by
    obtain ⟨_, hstored, -⟩ := stored_of_write (write_of_answer hwritten)
    have hagain := makeDirectories_again hmade hstored.keeps
    exact ⟨congrArg Prod.snd hagain, congrArg Prod.fst hagain⟩
  written_again t path content h := by
    obtain ⟨v, hv, hsame⟩ := write_again (write_of_answer h)
    obtain ⟨hanswer, hleft⟩ := answer_of_write hv
    exact ⟨hanswer, fun place => hleft ▸ hsame place⟩

end Tree

end HostGlue.File
