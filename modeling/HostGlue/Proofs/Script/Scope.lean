import HostGlue.Proofs.Script.Steps

/-!
# Which names are bound where a program calls something

A name stands for something of the host where no function around it binds it. The parameters and the
variables of a function are bound in all of it, also in front of their declaration; what a handler
catches is bound in the handler only. This file fixes

* `CallSite`, a call of a program with its line and the names that are bound at its place, and
  `Property.sites`, all call sites of a property;
* `CallSite.Free`, that a call goes through a name of the host;
* `Property.line_of_site`, that the line of every call site is one of the property;
* three forms of statements, and `Property.sitesIn`, the call sites in statements of a form: a
  statement of another form adds none to them (`Stmt.formed_ownSites_of_not`).
-/

namespace HostGlue.Script

/-! ## 1. Call sites -/

/-- A call of a function or of a constructor: the statement it stands in, the line it is written on,
    what is called, and the names that are bound at its place. -/
structure CallSite where
  stmt : Stmt
  line : String
  callee : Expr
  bound : List String

/-- **A call goes through a name of the host**: what it begins with is a name that can be bound at all,
    and nothing around the call binds it. -/
def CallSite.Free (s : CallSite) : Prop :=
  ∀ x, s.callee.root? = some x → x ∉ Ident.reservedWords ∧ x ∉ s.bound

mutual

/-- What an expression calls, with the names bound at each place. A function of its own binds its
    parameters. -/
def Expr.called (bound : List String) : Expr → List (Expr × List String)
  | .name _ | .text _ | .number _ => []
  | .member e _ => e.called bound
  | .item e key => e.called bound ++ key.called bound
  | .call f args | .construct f args =>
    (f, bound) :: (f.called bound ++ Expr.calledAll bound args)
  | .sum a b => a.called bound ++ b.called bound
  | .list items => Expr.calledAll bound items
  | .lambda params result => result.called (params ++ bound)
termination_by structural e => e

/-- What expressions call. -/
def Expr.calledAll (bound : List String) : List Expr → List (Expr × List String)
  | [] => []
  | e :: es => e.called bound ++ Expr.calledAll bound es
termination_by structural es => es

end

/-- The expressions that stand in a statement itself, and not in a statement of its own inside it, with
    the lines they are written on. -/
def Stmt.parts : Stmt → List (Expr × String)
  | .run e => [(e, e.spell ++ ";")]
  | .declare x e => [(e, "var " ++ x ++ " = " ++ e.spell ++ ";")]
  | .assign target e =>
    [(target, target.spell ++ " = " ++ e.spell ++ ";"), (e, target.spell ++ " = " ++ e.spell ++ ";")]
  | .give e => [(e, "return " ++ e.spell ++ ";")]
  | .choose scrutinee cases =>
    (scrutinee, openLine ("switch (" ++ scrutinee.spell ++ ")")) ::
      cases.map fun c => (c.2, caseText c)
  | .attempt _ _ _ | .declareFunction _ _ _ => []

/-- The calls that stand in a statement itself. -/
def Stmt.ownSites (bound : List String) (s : Stmt) : List CallSite :=
  s.parts.flatMap fun part => (part.1.called bound).map fun c => ⟨s, part.2, c.1, c.2⟩

mutual

/-- The call sites of a statement, given the names that are bound at its place. A handler binds what it
    catches, a function its parameters and its variables. -/
def Stmt.sites (bound : List String) : Stmt → List CallSite
  | .attempt body caught handler =>
    Stmt.sitesAll bound body ++ Stmt.sitesAll (caught :: bound) handler
  | .declareFunction _ params body =>
    Stmt.sitesAll (params ++ Stmt.declaredAll body ++ bound) body
  | .run e => Stmt.ownSites bound (.run e)
  | .declare x e => Stmt.ownSites bound (.declare x e)
  | .assign target e => Stmt.ownSites bound (.assign target e)
  | .give e => Stmt.ownSites bound (.give e)
  | .choose scrutinee cases => Stmt.ownSites bound (.choose scrutinee cases)
termination_by structural s => s

/-- The call sites of statements. -/
def Stmt.sitesAll (bound : List String) : List Stmt → List CallSite
  | [] => []
  | s :: ss => s.sites bound ++ Stmt.sitesAll bound ss
termination_by structural ss => ss

end

namespace Property

/-- The names a property binds in all of its body. -/
def scope (p : Property) : List String := p.params ++ Stmt.declaredAll p.body

/-- The call sites of a property. -/
def sites (p : Property) : List CallSite := Stmt.sitesAll p.scope p.body

end Property

/-! ## 2. Paths -/

theorem Expr.called_foldl_member (bound : List String) : ∀ (fields : List String) (e : Expr),
    (fields.foldl .member e).called bound = e.called bound
  | [], _ => rfl
  | f :: fields, e => called_foldl_member bound fields (.member e f)

/-- A path calls nothing by itself. -/
theorem Expr.called_ofPath (bound : List String) (path : String) :
    (Expr.ofPath path).called bound = [] := by
  unfold Expr.ofPath
  split
  · rfl
  · exact Expr.called_foldl_member bound _ _

theorem Expr.calledAll_names (bound : List String) : ∀ xs : List String,
    Expr.calledAll bound (Expr.names xs) = []
  | [] => rfl
  | _ :: xs => Expr.calledAll_names bound xs

/-- A call through a path goes to the host exactly if the root of the path is a name that can be bound
    and nothing around the call binds it. -/
theorem CallSite.free_ofPath {path : String} (h : Ident.IsPath path) (s : Stmt) (line : String)
    (bound : List String) :
    (CallSite.mk s line (.ofPath path) bound).Free ↔
      Ident.rootSegment path ∉ Ident.reservedWords ∧ Ident.rootSegment path ∉ bound := by
  constructor
  · exact fun hf => hf _ (Expr.root?_ofPath h)
  · intro hr x hx
    rw [Expr.root?_ofPath h] at hx
    exact Option.some.inj hx ▸ hr

/-! ## 3. Sites in statements of one form -/

namespace Stmt

/-- A statement that sets a variable, or a parameter. -/
def setsVariable : Stmt → Bool
  | .assign (.name _) _ => true
  | _ => false

/-- A statement that declares a variable for a function which returns one expression. -/
def declaresLambda : Stmt → Bool
  | .declare _ (.lambda _ _) => true
  | _ => false

/-- A statement that returns the expression of the case that fits. -/
def chooses : Stmt → Bool
  | .choose _ _ => true
  | _ => false

/-- The call sites that stand in statements of a form. -/
def formed (form : Stmt → Bool) (sites : List CallSite) : List CallSite :=
  sites.filter fun s => form s.stmt

variable (form : Stmt → Bool) (bound : List String)

theorem declaredAll_append : ∀ as bs : List Stmt,
    declaredAll (as ++ bs) = declaredAll as ++ declaredAll bs
  | [], _ => rfl
  | a :: as, bs => by
      rw [List.cons_append, declaredAll, declaredAll_append as bs, declaredAll, List.append_assoc]

theorem formed_append (as bs : List CallSite) :
    formed form (as ++ bs) = formed form as ++ formed form bs :=
  List.filter_append ..

theorem sitesAll_append : ∀ as bs : List Stmt,
    sitesAll bound (as ++ bs) = sitesAll bound as ++ sitesAll bound bs
  | [], _ => rfl
  | a :: as, bs => by
      rw [List.cons_append, sitesAll, sitesAll_append as bs, sitesAll, List.append_assoc]

/-- A statement of another form has no sites of this form. -/
theorem formed_ownSites_of_not {s : Stmt} (h : form s = false) :
    formed form (ownSites bound s) = [] := by
  rw [formed, ownSites, List.filter_eq_nil_iff]
  intro site hsite
  obtain ⟨part, -, hsite⟩ := List.mem_flatMap.mp hsite
  obtain ⟨c, -, rfl⟩ := List.mem_map.mp hsite
  show ¬ form s = true
  rw [h]
  exact Bool.false_ne_true

mutual

/-- Whether no statement of a form is in a statement, at any depth. -/
def lacks (form : Stmt → Bool) : Stmt → Bool
  | .attempt body _ handler => lacksAll form body && lacksAll form handler
  | .declareFunction _ _ body => lacksAll form body
  | .run e => !form (.run e)
  | .declare x e => !form (.declare x e)
  | .assign target e => !form (.assign target e)
  | .give e => !form (.give e)
  | .choose scrutinee cases => !form (.choose scrutinee cases)
termination_by structural s => s

/-- Whether no statement of a form is in statements. -/
def lacksAll (form : Stmt → Bool) : List Stmt → Bool
  | [] => true
  | s :: ss => s.lacks form && lacksAll form ss
termination_by structural ss => ss

end

mutual

/-- **Statements without one of a form have no call sites of this form**, whatever is bound. -/
theorem formed_sites_of_lacks : ∀ (bound : List String) (s : Stmt), s.lacks form = true →
    formed form (s.sites bound) = []
  | bound, .attempt body caught handler, h => by
      rw [lacks, Bool.and_eq_true] at h
      rw [sites, formed_append, formed_sitesAll_of_lacks bound body h.1,
        formed_sitesAll_of_lacks (caught :: bound) handler h.2]
      rfl
  | bound, .declareFunction _ params body, h =>
      formed_sitesAll_of_lacks (params ++ declaredAll body ++ bound) body h
  | bound, .run _, h | bound, .declare _ _, h | bound, .assign _ _, h | bound, .give _, h
  | bound, .choose _ _, h => formed_ownSites_of_not form bound (by simpa [lacks] using h)

theorem formed_sitesAll_of_lacks : ∀ (bound : List String) (ss : List Stmt),
    lacksAll form ss = true → formed form (sitesAll bound ss) = []
  | _, [], _ => rfl
  | bound, s :: ss, h => by
      rw [lacksAll, Bool.and_eq_true] at h
      rw [sitesAll, formed_append, formed_sites_of_lacks bound s h.1,
        formed_sitesAll_of_lacks bound ss h.2]
      rfl

end

theorem lacksAll_append {as bs : List Stmt} (ha : lacksAll form as = true)
    (hb : lacksAll form bs = true) : lacksAll form (as ++ bs) = true := by
  induction as with
  | nil => exact hb
  | cons a as ih =>
    rw [lacksAll, Bool.and_eq_true] at ha
    rw [List.cons_append, lacksAll, ha.1, ih ha.2]
    rfl

end Stmt

/-- The sites of a property in statements of a form. -/
def Property.sitesIn (form : Stmt → Bool) (p : Property) : List CallSite :=
  Stmt.formed form p.sites

/-! ## 4. Lines of sites -/

/-- What stands in a statement is written on one of its lines. -/
theorem Stmt.line_of_part (d : Nat) : ∀ (s : Stmt), ∀ part ∈ s.parts,
    ∃ d', ⟨d', part.2⟩ ∈ Code.bodyLines d s.code
  | .run _, _, h | .declare _ _, _, h | .give _, _, h => by
      rw [List.mem_singleton.mp h]
      exact ⟨d, List.mem_singleton_self _⟩
  | .assign _ _, _, h => by
      rcases List.mem_cons.mp h with rfl | h
      · exact ⟨d, List.mem_singleton_self _⟩
      · rw [List.mem_singleton.mp h]
        exact ⟨d, List.mem_singleton_self _⟩
  | .choose scrutinee cases, part, h => by
      rw [Stmt.code, Code.bodyLines, Code.bodyLines, List.append_nil, Code.lines]
      rcases List.mem_cons.mp h with rfl | h
      · exact ⟨d, List.mem_cons_self⟩
      · obtain ⟨c, hc, rfl⟩ := List.mem_map.mp h
        have hline : ∀ cs : List (Int × Expr), c ∈ cs →
            ⟨d + 1, caseText c⟩ ∈ Code.bodyLines (d + 1) (cs.map fun c => .line (caseText c)) := by
          intro cs hcs
          obtain ⟨front, back, rfl⟩ := List.append_of_mem hcs
          rw [List.map_append, Code.bodyLines_append, List.map_cons]
          exact List.mem_append_right _ List.mem_cons_self
        exact ⟨d + 1, List.mem_append_left _ (List.mem_cons_of_mem _ (hline cases hc))⟩

/-- A site of a statement itself is on one of its lines. -/
theorem Stmt.line_of_ownSite {bound : List String} {s : Stmt} {site : CallSite}
    (h : site ∈ s.ownSites bound) (d : Nat) : ∃ d', ⟨d', site.line⟩ ∈ Code.bodyLines d s.code := by
  obtain ⟨part, hpart, h⟩ := List.mem_flatMap.mp h
  obtain ⟨c, -, rfl⟩ := List.mem_map.mp h
  exact s.line_of_part d part hpart

/-- The lines of a body are lines of its block. -/
theorem mem_block_of_body {l : Line} {d : Nat} {body : List Code} (h : l ∈ Code.bodyLines (d + 1) body)
    (header suffix : String) : l ∈ Code.bodyLines d [.block header suffix body] := by
  rw [Code.bodyLines, Code.bodyLines, List.append_nil, Code.lines]
  exact List.mem_append_left _ (List.mem_cons_of_mem _ h)

mutual

/-- **The line of a site is a line of the statement**, at some depth. -/
theorem Stmt.line_of_site : ∀ (s : Stmt) (bound : List String), ∀ site ∈ s.sites bound,
    ∀ d, ∃ d', ⟨d', site.line⟩ ∈ Code.bodyLines d s.code
  | .attempt body caught handler, bound, site, h, d => by
      have hcode : Code.bodyLines d (Stmt.attempt body caught handler).code =
          Code.bodyLines d [.block "try" "" (Stmt.bodyCode body)] ++
            Code.bodyLines d [.block ("catch (" ++ caught ++ ")") "" (Stmt.bodyCode handler)] :=
        Code.bodyLines_append d [_] [_]
      rw [hcode]
      rcases List.mem_append.mp h with h | h
      · obtain ⟨d', hline⟩ := Stmt.line_of_siteAll body bound site h (d + 1)
        exact ⟨d', List.mem_append_left _ (mem_block_of_body hline _ _)⟩
      · obtain ⟨d', hline⟩ := Stmt.line_of_siteAll handler (caught :: bound) site h (d + 1)
        exact ⟨d', List.mem_append_right _ (mem_block_of_body hline _ _)⟩
  | .declareFunction x params body, bound, site, h, d => by
      obtain ⟨d', hline⟩ :=
        Stmt.line_of_siteAll body (params ++ Stmt.declaredAll body ++ bound) site h (d + 1)
      exact ⟨d', mem_block_of_body hline _ _⟩
  | .run _, _, _, h, d | .declare _ _, _, _, h, d | .assign _ _, _, _, h, d | .give _, _, _, h, d
  | .choose _ _, _, _, h, d => Stmt.line_of_ownSite h d

theorem Stmt.line_of_siteAll : ∀ (ss : List Stmt) (bound : List String),
    ∀ site ∈ Stmt.sitesAll bound ss, ∀ d, ∃ d', ⟨d', site.line⟩ ∈ Code.bodyLines d (Stmt.bodyCode ss)
  | [], _, _, h, _ => absurd h List.not_mem_nil
  | s :: ss, bound, site, h, d => by
      rw [Stmt.bodyCode, Code.bodyLines_append]
      rcases List.mem_append.mp h with h | h
      · obtain ⟨d', hline⟩ := s.line_of_site bound site h d
        exact ⟨d', List.mem_append_left _ hline⟩
      · obtain ⟨d', hline⟩ := Stmt.line_of_siteAll ss bound site h d
        exact ⟨d', List.mem_append_right _ hline⟩

end

/-- **The line of a site is a line of the property.** -/
theorem Property.line_of_site {p : Property} {site : CallSite} (h : site ∈ p.sites) (d : Nat) :
    ∃ d', ⟨d', site.line⟩ ∈ Code.bodyLines d [p.code] := by
  obtain ⟨d', hline⟩ := Stmt.line_of_siteAll p.body p.scope site h (d + 1)
  exact ⟨d', mem_block_of_body hline _ _⟩

theorem Property.mem_sites {form : Stmt → Bool} {p : Property} {site : CallSite}
    (h : site ∈ p.sitesIn form) : site ∈ p.sites := (List.mem_filter.mp h).1

end HostGlue.Script
