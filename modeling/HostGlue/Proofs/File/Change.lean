import HostGlue.File.Tree
import Mathlib.Data.List.Basic
import Mathlib.Data.List.TakeWhile

/-!
# What an operation leaves as it was

A run reads files, makes directories and stores one file. This file says of each of these operations
what it does to a tree, and that a path which led somewhere before still leads there:

* `Tree.file?`, the content of the file at a place, and `SameFiles`, that no file came, went or changed;
* `Grows`, that directories came and nothing else happened, and `Stored`, that one file has a content now
  and everything else is as it was: making directories is the one (`makeDirectories_grows`), storing a
  file the other (`stored_of_write`);
* `Keeps`, what both have in common: directories stay. Then paths lead where they led
  (`Keeps.locate`), and a file that is as it was is read as before (`Keeps.read`).
-/

namespace HostGlue.File.Tree

/-! ## 1. What stands where -/

/-- The content of the file at a place, if there is a file. -/
def file? (t : Tree) (place : Location) : Option ByteArray :=
  match t.node? place with
  | some (.file content) => some content
  | _ => none

/-- Two trees have the same files, with the same contents. -/
def SameFiles (t u : Tree) : Prop := ∀ place, u.file? place = t.file? place

theorem file?_congr {t u : Tree} {place : Location} (h : u.node? place = t.node? place) :
    u.file? place = t.file? place := by
  rw [file?, file?, h]

theorem file?_eq_some {t : Tree} {place : Location} {content : ByteArray} :
    t.file? place = some content ↔ t.node? place = some (.file content) := by
  unfold file?
  cases t.node? place with
  | none => simp
  | some n => cases n <;> simp

theorem find?_putEntry (place q : Location) (n : Node) : ∀ es : List (Location × Node),
    (putEntry place n es).find? (fun e => e.1 == q) =
      if place = q then some (place, n) else es.find? fun e => e.1 == q
  | [] => by
      by_cases h : place = q <;> simp [putEntry, h]
  | e :: es => by
      have ih := find?_putEntry place q n es
      unfold putEntry
      by_cases hep : e.1 = place
      · by_cases hq : place = q <;> simp [hep, hq]
      · by_cases hq : place = q
        · subst hq
          simp [hep, ih]
        · simp [hep, hq, List.find?_cons, ih]

/-- What stands at the places of a tree in which something was put to a place that is none of the
    working directory or above it. -/
theorem node?_put {t : Tree} {place : Location} (hp : place.isPrefixOf t.home = false) (n : Node)
    (q : Location) : (t.put place n).node? q = if q = place then some n else t.node? q := by
  have hfind := find?_putEntry place q n t.entries
  unfold node? put
  by_cases hq : q = place
  · subst hq
    simp [hp, hfind]
  · have hne : ¬ place = q := fun h => hq h.symm
    simp [hq, hfind, hne]

/-- A place where no directory stands is neither the working directory nor above it. -/
theorem not_above_of_node? {t : Tree} {place : Location} (h : t.node? place ≠ some .directory) :
    place.isPrefixOf t.home = false := by
  cases hp : place.isPrefixOf t.home with
  | false => rfl
  | true =>
    rw [node?, hp] at h
    exact absurd rfl h

theorem enterFault?_eq_none {t : Tree} {place : Location} :
    t.enterFault? place = none ↔ t.node? place = some .directory := by
  unfold enterFault?
  cases t.node? place with
  | none => simp
  | some n => cases n <;> simp

/-! ## 2. Following a path -/

/-- What can be done to a tree without leading any path astray: directories stay what they are. -/
structure Keeps (t u : Tree) : Prop where
  home : u.home = t.home
  directories : ∀ place, t.node? place = some .directory → u.node? place = some .directory

theorem Keeps.refl (t : Tree) : Keeps t t := ⟨rfl, fun _ h => h⟩

theorem Keeps.trans {t u v : Tree} (h : Keeps t u) (h' : Keeps u v) : Keeps t v :=
  ⟨h'.home.trans h.home, fun place hd => h'.directories place (h.directories place hd)⟩

theorem Keeps.start {t u : Tree} (h : Keeps t u) (path : String) : u.start path = t.start path := by
  rw [Tree.start, Tree.start, h.home]

/-- What is looked up does not decide whether it can be. -/
theorem lookup_eq_ok {t : Tree} {directory : Location} {name : String} {n : Option Node}
    (h : t.lookup directory name = .ok n) :
    n = t.node? (directory ++ [name]) ∧
      ∀ u : Tree, u.lookup directory name = .ok (u.node? (directory ++ [name])) := by
  unfold lookup at h
  split at h
  · cases h
  · rename_i hlong
    exact ⟨(Except.ok.inj h).symm, fun u => by rw [lookup, if_neg hlong]⟩

/-- Where one part of a path leads from a place: the place is a directory, and what its name leads to
    does not depend on what is there. -/
theorem walk_part {t : Tree} {place q : Location} {part : String}
    (h : t.walk place [part] = .ok q) :
    t.node? place = some .directory ∧
      ∀ u : Tree, u.node? place = some .directory → u.walk place [part] = .ok q := by
  unfold walk at h
  split at h
  · cases h
  · rename_i henter
    refine ⟨enterFault?_eq_none.mp henter, fun u hu => ?_⟩
    rw [walk, enterFault?_eq_none.mpr hu]
    dsimp only
    by_cases hfill : Path.isFiller part = true
    · rw [if_pos hfill] at h ⊢
      exact h
    · rw [if_neg hfill] at h ⊢
      by_cases hdots : part = ".."
      · rw [if_pos hdots] at h ⊢
        exact h
      · rw [if_neg hdots] at h ⊢
        split at h
        · cases h
        · rename_i hlookup
          rw [(lookup_eq_ok hlookup).2 u]
          exact h

/-- A path is followed part by part. -/
theorem walk_cons (t : Tree) (place : Location) (part : String) (rest : List String) :
    t.walk place (part :: rest) = (t.walk place [part]).bind fun q => t.walk q rest := by
  simp only [walk]
  split
  · rfl
  · split
    · rfl
    · split
      · rfl
      · split <;> rfl

theorem walk_append (t : Tree) : ∀ (as bs : List String) (place : Location),
    t.walk place (as ++ bs) = (t.walk place as).bind fun q => t.walk q bs
  | [], _, _ => rfl
  | part :: as, bs, place => by
      rw [List.cons_append, walk_cons, walk_cons t place part as]
      cases t.walk place [part] with
      | error f => rfl
      | ok q => exact walk_append t as bs q

theorem of_walk_append {t : Tree} (as : List String) {bs : List String} {place q : Location}
    (h : t.walk place (as ++ bs) = .ok q) :
    ∃ mid, t.walk place as = .ok mid ∧ t.walk mid bs = .ok q := by
  rw [walk_append] at h
  cases hw : t.walk place as with
  | error f =>
    rw [hw] at h
    cases h
  | ok mid =>
    rw [hw] at h
    exact ⟨mid, rfl, h⟩

/-- **A path leads where it led** as long as directories stay. -/
theorem Keeps.walk {t u : Tree} (h : Keeps t u) : ∀ {parts : List String} {place q : Location},
    t.walk place parts = .ok q → u.walk place parts = .ok q
  | [], _, _, hw => by
      cases hw
      rfl
  | part :: rest, place, q, hw => by
      obtain ⟨mid, hpart, hrest⟩ := of_walk_append [part] hw
      obtain ⟨hd, hother⟩ := walk_part hpart
      rw [walk_cons, hother u (h.directories place hd)]
      exact h.walk hrest

theorem of_locate {t : Tree} {path : String} {place : Location} (h : t.locate path = .ok place) :
    pathFault? path = none ∧ t.walk (t.start path) (Path.parts path) = .ok place := by
  unfold locate at h
  split at h
  · cases h
  · rename_i hp
    exact ⟨hp, h⟩

theorem Keeps.locate {t u : Tree} (h : Keeps t u) {path : String} {place : Location}
    (hl : t.locate path = .ok place) : u.locate path = .ok place := by
  obtain ⟨hp, hw⟩ := of_locate hl
  rw [Tree.locate, hp, h.start]
  exact h.walk hw

/-- What is read is the file a path leads to. -/
theorem read_eq_ok {t : Tree} {path : String} {content : ByteArray} :
    t.read path = .ok content ↔
      ∃ place, t.locate path = .ok place ∧ t.file? place = some content := by
  unfold read file?
  cases t.locate path with
  | error f => simp
  | ok place =>
    cases hn : t.node? place with
    | none => simp [hn]
    | some n => cases n <;> simp [hn]

/-- **A file that is as it was is read as before.** -/
theorem Keeps.read {t u : Tree} (h : Keeps t u) {path : String} {place : Location}
    {content : ByteArray} (hl : t.locate path = .ok place) (hr : t.read path = .ok content)
    (hf : u.file? place = t.file? place) : u.read path = .ok content := by
  obtain ⟨place', hl', hc⟩ := read_eq_ok.mp hr
  rw [hl] at hl'
  cases hl'
  exact read_eq_ok.mpr ⟨place, h.locate hl, hf.trans hc⟩

/-! ## 3. The end of a path -/

/-- The parts of a path up to its last name, and the empty ones behind it. -/
theorem parts_eq (ps : List String) :
    ∃ body pad, (ps.reverse.dropWhile (· == "")).reverse = body ∧ ps = body ++ pad ∧
      (∀ p ∈ pad, p = "") ∧ ∀ last ∈ body.getLast?, last ≠ "" := by
  refine ⟨_, (ps.reverse.takeWhile (· == "")).reverse, rfl, ?_, fun p hp => ?_, fun last hl => ?_⟩
  · rw [← List.reverse_append, List.takeWhile_append_dropWhile, List.reverse_reverse]
  · simpa using List.mem_takeWhile_imp (List.mem_reverse.mp hp)
  · rw [List.getLast?_reverse] at hl
    have h := List.head?_dropWhile_not (· == "") ps.reverse
    rw [hl] at h
    simpa using h

/-- Empty parts lead nowhere else, as long as they follow a directory. -/
theorem walk_pad {t : Tree} {place : Location} (hd : t.node? place = some .directory) :
    ∀ {pad : List String}, (∀ p ∈ pad, p = "") → t.walk place pad = .ok place
  | [], _ => rfl
  | p :: pad, h => by
      have hp : Path.isFiller p = true := by
        rw [h p List.mem_cons_self]
        decide
      rw [walk, enterFault?_eq_none.mpr hd]
      simp only [hp, if_true]
      exact walk_pad hd fun q hq => h q (List.mem_cons_of_mem p hq)

/-- A last part that counts as a name is there, and leads on. -/
theorem of_name_eq {last : Option String} {name : String}
    (h : (if Path.isFiller (last.getD "") || last.getD "" == ".." then none
      else some (last.getD "")) = some name) :
    last = some name ∧ Path.isFiller name = false ∧ name ≠ ".." := by
  split at h
  · cases h
  · rename_i hdots
    simp only [Bool.or_eq_true, not_or, Bool.not_eq_true, beq_iff_eq] at hdots
    cases last with
    | none => exact absurd hdots.1 (by decide)
    | some last => exact ⟨h, Option.some.inj h ▸ hdots.1, Option.some.inj h ▸ hdots.2⟩

/-- How a path ends: in a name that leads on from a directory, or in dots. -/
structure EndsAt (t : Tree) (path : String) (e : End) : Prop where
  fault : pathFault? path = none
  directory : t.node? e.directory = some .directory
  parts : ∃ front pad, (∀ p ∈ pad, p = "") ∧ (e.bare = true → pad = []) ∧
    t.walk (t.start path) front = .ok e.directory ∧
    ∀ name, e.name = some name → Path.isFiller name = false ∧ name ≠ ".." ∧
      Path.parts path = front ++ name :: pad

theorem endsAt_of_locateEnd {t : Tree} {path : String} {e : End}
    (h : t.locateEnd path = .ok e) : EndsAt t path e := by
  obtain ⟨body, pad, hbody, hparts, hpad, hlast⟩ := parts_eq (Path.parts path)
  unfold locateEnd at h
  simp only [hbody] at h
  split at h
  · cases h
  · rename_i hfault
    split at h
    · cases h
    · rename_i directory hwalk
      split at h
      · cases h
      · rename_i henter
        cases h
        refine ⟨hfault, enterFault?_eq_none.mp henter, body.dropLast, pad, hpad, fun hbare => ?_,
          hwalk, fun name hname => ?_⟩
        · have hlen : body.length = (Path.parts path).length := by simpa using hbare
          rw [hparts, List.length_append] at hlen
          exact List.eq_nil_of_length_eq_zero (by omega)
        · obtain ⟨hl, hfill, hdots⟩ := of_name_eq hname
          refine ⟨hfill, hdots, ?_⟩
          rw [hparts]
          conv_lhs => rw [← List.dropLast_append_getLast? name hl]
          rw [List.append_assoc, List.singleton_append]

theorem Keeps.locateEnd {t u : Tree} (h : Keeps t u) {path : String} {e : End}
    (hl : t.locateEnd path = .ok e) : u.locateEnd path = .ok e := by
  unfold Tree.locateEnd at hl ⊢
  dsimp only at hl ⊢
  split at hl
  · cases hl
  · split at hl
    · cases hl
    · rename_i directory hwalk
      split at hl
      · cases hl
      · rename_i henter
        have hdir := h.directories directory (enterFault?_eq_none.mp henter)
        rw [h.start, h.walk hwalk]
        simp only [enterFault?_eq_none.mpr hdir]
        exact hl

/-- A path that ends in a name leads to the place of the name, if that is a directory or nothing stands
    behind the name. -/
theorem EndsAt.locate {t u : Tree} {path : String} {directory : Location} {name : String}
    {bare : Bool} {n : Option Node} (h : EndsAt t path ⟨directory, some name, bare⟩)
    (hk : Keeps t u) (hlookup : t.lookup directory name = .ok n)
    (hend : bare = true ∨ u.node? (directory ++ [name]) = some .directory) :
    u.locate path = .ok (directory ++ [name]) := by
  obtain ⟨front, pad, hpad, hbare, hwalk, hname⟩ := h.parts
  obtain ⟨hfill, hdots, hparts⟩ := hname name rfl
  have hlookup' := (lookup_eq_ok hlookup).2 u
  have hstep : u.walk directory (name :: pad) = u.walk (directory ++ [name]) pad := by
    rw [walk, enterFault?_eq_none.mpr (hk.directories _ h.directory)]
    simp only [hfill, Bool.false_eq_true, if_false, if_neg hdots, hlookup']
  have hpadded : u.walk (directory ++ [name]) pad = .ok (directory ++ [name]) := by
    rcases hend with hb | hd
    · rw [hbare hb]
      rfl
    · exact walk_pad hd hpad
  rw [Tree.locate, h.fault, hk.start, hparts]
  have hfront := hk.walk hwalk
  rw [walk_append, hfront]
  exact hstep.trans hpadded

/-! ## 4. Making directories -/

/-- A tree goes on from another with new directories, and nothing else. -/
structure Grows (t u : Tree) : Prop where
  home : u.home = t.home
  nodes : ∀ place, u.node? place = t.node? place ∨
    t.node? place = none ∧ u.node? place = some .directory

namespace Grows

theorem refl (t : Tree) : Grows t t := ⟨rfl, fun _ => .inl rfl⟩

theorem trans {t u v : Tree} (h : Grows t u) (h' : Grows u v) : Grows t v := by
  refine ⟨h'.home.trans h.home, fun place => ?_⟩
  rcases h.nodes place with hu | ⟨hnone, hu⟩
  · rcases h'.nodes place with hv | ⟨hnone', hv⟩
    · exact .inl (hv.trans hu)
    · exact .inr ⟨hu ▸ hnone', hv⟩
  · rcases h'.nodes place with hv | ⟨hnone', hv⟩
    · exact .inr ⟨hnone, hv.trans hu⟩
    · exact .inr ⟨hnone, hv⟩

theorem keeps {t u : Tree} (h : Grows t u) : Keeps t u := by
  refine ⟨h.home, fun place hd => ?_⟩
  rcases h.nodes place with hu | ⟨-, hu⟩
  · exact hu.trans hd
  · exact hu

theorem sameFiles {t u : Tree} (h : Grows t u) : SameFiles t u := by
  intro place
  rcases h.nodes place with hu | ⟨hnone, hu⟩
  · exact file?_congr hu
  · rw [file?, file?, hnone, hu]

end Grows

/-- A directory that is made stands where the path leads, and nothing stood there. -/
theorem of_makeDirectory {t u : Tree} {path : String} (h : t.makeDirectory path = .ok u) :
    Grows t u ∧ u.isDirectory path = true := by
  unfold makeDirectory at h
  split at h
  · cases h
  · rename_i directory name bare hend
    split at h
    · cases h
    · cases h
    · rename_i hlookup
      cases h
      have hnone : t.node? (directory ++ [name]) = none := (lookup_eq_ok hlookup).1.symm
      have hput := node?_put (not_above_of_node? (by rw [hnone]; simp)) Node.directory
      have hgrows : Grows t (t.put (directory ++ [name]) .directory) := by
        refine ⟨rfl, fun place => ?_⟩
        by_cases hp : place = directory ++ [name]
        · subst hp
          exact .inr ⟨hnone, by rw [hput, if_pos rfl]⟩
        · exact .inl (by rw [hput, if_neg hp])
      have hdir : (t.put (directory ++ [name]) .directory).node? (directory ++ [name]) =
          some .directory := by
        rw [hput, if_pos rfl]
      have hlocate := (endsAt_of_locateEnd hend).locate hgrows.keeps hlookup (.inr hdir)
      refine ⟨hgrows, ?_⟩
      rw [isDirectory, hlocate]
      simp only [hdir]
  · cases h

theorem ensureDirectory_grows (t : Tree) (path : String) : Grows t (t.ensureDirectory path).1 := by
  unfold ensureDirectory
  split
  · rename_i h
    exact (of_makeDirectory h).1
  · exact .refl t

theorem isDirectory_of_ensureDirectory {t : Tree} {path : String}
    (h : (t.ensureDirectory path).2 = .ok ()) :
    (t.ensureDirectory path).1.isDirectory path = true := by
  unfold ensureDirectory at h ⊢
  split at h
  · rename_i hm
    exact (of_makeDirectory hm).2
  · dsimp only at h ⊢
    split at h
    · assumption
    · cases h

theorem makeDirectoriesUpTo_grows : ∀ (fuel : Nat) (t : Tree) (path : String),
    Grows t (makeDirectoriesUpTo fuel t path).1
  | 0, t, _ => .refl t
  | fuel + 1, t, path => by
      unfold makeDirectoriesUpTo
      split
      · exact .refl t
      · split
        · split
          · exact .refl t
          · rename_i above _
            have ih := makeDirectoriesUpTo_grows fuel t above
            split
            · rename_i u hu
              rw [hu] at ih
              exact ih.trans (ensureDirectory_grows u path)
            · rename_i u f hu
              rw [hu] at ih
              exact ih
        · exact ensureDirectory_grows t path

/-- **Making directories adds directories and does nothing else**, whether or not it ends well. -/
theorem makeDirectories_grows (t : Tree) (path : String) : Grows t (t.makeDirectories path).1 :=
  makeDirectoriesUpTo_grows _ t path

/-- Where directories were made, there is one. -/
theorem isDirectory_of_makeDirectories {t : Tree} {path : String} (hne : path ≠ "")
    (h : (t.makeDirectories path).2 = .ok ()) : (t.makeDirectories path).1.isDirectory path = true := by
  unfold makeDirectories makeDirectoriesUpTo at h ⊢
  rw [if_neg hne] at h ⊢
  split at h
  · split at h
    · cases h
    · split at h
      · exact isDirectory_of_ensureDirectory h
      · cases h
  · exact isDirectory_of_ensureDirectory h

theorem isDirectory_iff {t : Tree} {path : String} :
    t.isDirectory path = true ↔
      ∃ place, t.locate path = .ok place ∧ t.node? place = some .directory := by
  unfold isDirectory
  cases t.locate path with
  | error f => simp
  | ok place =>
    cases hn : t.node? place with
    | none => simp [hn]
    | some n => cases n <;> simp [hn]

theorem Keeps.isDirectory {t u : Tree} (h : Keeps t u) {path : String}
    (hd : t.isDirectory path = true) : u.isDirectory path = true := by
  obtain ⟨place, hl, hn⟩ := isDirectory_iff.mp hd
  exact isDirectory_iff.mpr ⟨place, h.locate hl, h.directories place hn⟩

/-- A way to a directory goes through directories. -/
theorem node?_of_walk {t : Tree} {place q : Location} : ∀ {parts : List String},
    t.walk place parts = .ok q → t.node? q = some .directory → t.node? place = some .directory
  | [], h, hq => by
      cases h
      exact hq
  | part :: rest, h, _ => by
      obtain ⟨mid, hpart, -⟩ := of_walk_append [part] h
      exact (walk_part hpart).1

/-- A name on the way to a directory stands for a directory. -/
theorem lookup_of_walk {t : Tree} {place q : Location} {name : String} {rest : List String}
    (hfill : Path.isFiller name = false) (hdots : name ≠ "..")
    (h : t.walk place (name :: rest) = .ok q) (hq : t.node? q = some .directory) :
    t.lookup place name = .ok (some .directory) := by
  have hplace := node?_of_walk h hq
  rw [walk, enterFault?_eq_none.mpr hplace] at h
  simp only [hfill, Bool.false_eq_true, if_false, if_neg hdots] at h
  cases hlookup : t.lookup place name with
  | error f =>
    rw [hlookup] at h
    cases h
  | ok n =>
    rw [hlookup] at h
    rw [(lookup_eq_ok hlookup).1, node?_of_walk h hq]

/-- The way to a directory goes through the directory it is in. -/
theorem locateEnd_of_isDirectory {t : Tree} {path : String} (h : t.isDirectory path = true) :
    ∃ e, t.locateEnd path = .ok e ∧
      ∀ name, e.name = some name → t.lookup e.directory name = .ok (some .directory) := by
  obtain ⟨place, hl, hn⟩ := isDirectory_iff.mp h
  obtain ⟨hfault, hwalk⟩ := of_locate hl
  obtain ⟨body, pad, hbody, hparts, hpad, -⟩ := parts_eq (Path.parts path)
  -- the last name is one step of the way, and the empty parts behind it lead nowhere else
  have hfront : body = body.dropLast ++ body.getLast?.toList := by
    cases hlast : body.getLast? with
    | none => rw [List.getLast?_eq_none_iff.mp hlast]; rfl
    | some last => exact (List.dropLast_append_getLast? last hlast).symm
  rw [hparts, hfront, List.append_assoc] at hwalk
  obtain ⟨directory, hfirst, hrest⟩ := of_walk_append _ hwalk
  unfold locateEnd
  simp only [hfault, hbody, hfirst, enterFault?_eq_none.mpr (node?_of_walk hrest hn)]
  refine ⟨_, rfl, fun name hname => ?_⟩
  obtain ⟨hlast, hfill, hdots⟩ := of_name_eq hname
  rw [hlast] at hrest
  exact lookup_of_walk hfill hdots hrest hn

/-- A directory that is there is left as it is. -/
theorem makeDirectories_of_isDirectory {t : Tree} {path : String} (h : t.isDirectory path = true) :
    t.makeDirectories path = (t, .ok ()) := by
  obtain ⟨⟨directory, name, bare⟩, hend, hname⟩ := locateEnd_of_isDirectory h
  have hmake : t.makeDirectory path = .error .exists := by
    unfold makeDirectory
    rw [hend]
    cases name with
    | none => rfl
    | some name => simp only [hname name rfl]
  have hensure : t.ensureDirectory path = (t, .ok ()) := by
    rw [ensureDirectory, hmake]
    simp only [h, if_true]
  unfold makeDirectories makeDirectoriesUpTo
  by_cases hempty : path = ""
  · rw [if_pos hempty]
  · rw [if_neg hempty, hmake]
    exact hensure

/-- Where directories were made, making them again does nothing. -/
theorem makeDirectories_again {t u : Tree} {path : String}
    (h : (t.makeDirectories path).2 = .ok ()) (hk : Keeps (t.makeDirectories path).1 u) :
    u.makeDirectories path = (u, .ok ()) := by
  by_cases hempty : path = ""
  · rw [makeDirectories, makeDirectoriesUpTo, if_pos hempty]
  · exact makeDirectories_of_isDirectory (hk.isDirectory (isDirectory_of_makeDirectories hempty h))

/-! ## 5. Storing a file -/

/-- A tree that goes on from another with a content stored at a place, where no directory stood, and
    nothing else. -/
structure Stored (t : Tree) (place : Location) (content : ByteArray) (u : Tree) : Prop where
  free : t.node? place ≠ some .directory
  home : u.home = t.home
  nodes : ∀ q, u.node? q = if q = place then some (.file content) else t.node? q

namespace Stored

theorem keeps {t u : Tree} {place : Location} {content : ByteArray}
    (h : Stored t place content u) : Keeps t u := by
  refine ⟨h.home, fun q hd => ?_⟩
  have hne : q ≠ place := fun hq => h.free (hq ▸ hd)
  rw [h.nodes, if_neg hne, hd]

theorem file? {t u : Tree} {place : Location} {content : ByteArray}
    (h : Stored t place content u) : u.file? place = some content := by
  rw [file?_eq_some, h.nodes, if_pos rfl]

theorem others {t u : Tree} {place q : Location} {content : ByteArray}
    (h : Stored t place content u) (hq : q ≠ place) : u.file? q = t.file? q :=
  file?_congr (by rw [h.nodes, if_neg hq])

end Stored

/-- **Storing a file changes the one place its path leads to.** -/
theorem stored_of_write {t u : Tree} {path : String} {content : ByteArray}
    (h : t.write path content = .ok u) :
    ∃ place, Stored t place content u ∧ t.locate path = .ok place := by
  unfold write at h
  split at h
  · cases h
  · rename_i directory name hend
    split at h
    · cases h
    · cases h
    · rename_i n hdir hlookup
      cases h
      have hfree : t.node? (directory ++ [name]) ≠ some .directory := by
        intro hd
        rw [← (lookup_eq_ok hlookup).1] at hd
        exact hdir hd
      refine ⟨directory ++ [name], ⟨hfree, rfl, node?_put (not_above_of_node? hfree) _⟩, ?_⟩
      exact (endsAt_of_locateEnd hend).locate (.refl t) hlookup (.inl rfl)
  · cases h

/-- Storing a file once more changes no file. -/
theorem write_again {t u : Tree} {path : String} {content : ByteArray}
    (h : t.write path content = .ok u) : ∃ v, u.write path content = .ok v ∧ SameFiles u v := by
  obtain ⟨place, hstored, hplace⟩ := stored_of_write h
  unfold write at h
  split at h
  · cases h
  · rename_i directory name hend
    split at h
    · cases h
    · cases h
    · rename_i n hdir hlookup
      have hends := endsAt_of_locateEnd hend
      have hl := hends.locate (.refl t) hlookup (.inl rfl)
      rw [hplace] at hl
      obtain rfl : place = directory ++ [name] := Except.ok.inj hl
      have hnode : u.node? (directory ++ [name]) = some (.file content) := by
        rw [hstored.nodes, if_pos rfl]
      refine ⟨u.put (directory ++ [name]) (.file content), ?_, fun q => file?_congr ?_⟩
      · unfold write
        rw [hstored.keeps.locateEnd hend]
        simp only [(lookup_eq_ok hlookup).2 u, hnode]
      · rw [node?_put (not_above_of_node? (by rw [hnode]; simp))]
        by_cases hq : q = directory ++ [name]
        · rw [if_pos hq, hq, hnode]
        · rw [if_neg hq]
  · cases h

end HostGlue.File.Tree
