/-!
# Types that cross the boundary

A catalog describes functions by the types of their parameters and results. This file fixes

* `Plain`, the types that are one word, with their spelling (`Plain.name`) and its inverse
  (`Plain.ofName?`);
* `Ty`, a plain type or a callback, and `Param`, a named position of a parameter list; the two are
  mutually recursive because a callback has parameters of its own;
* `Ty.text`, the notation of a type in diagnostics: `callback(i32, handle) -> f64`;
* equality of types, which is decidable (`Ty.same_iff`).
-/

namespace HostGlue

/-! ## 1. Plain types and directions -/

/-- The types that are written as one word. -/
inductive Plain where
  | void
  | i8
  | u8
  | i16
  | u16
  | i32
  | u32
  | i64
  | u64
  | f32
  | f64
  | string
  | handle
  deriving DecidableEq

namespace Plain

/-- Every plain type, in the order in which a diagnostic lists them. -/
def all : List Plain :=
  [void, i8, u8, i16, u16, i32, u32, i64, u64, f32, f64, string, handle]

/-- The word for a plain type. -/
def name : Plain → String
  | void => "void"
  | i8 => "i8"
  | u8 => "u8"
  | i16 => "i16"
  | u16 => "u16"
  | i32 => "i32"
  | u32 => "u32"
  | i64 => "i64"
  | u64 => "u64"
  | f32 => "f32"
  | f64 => "f64"
  | string => "string"
  | handle => "handle"

/-- The plain type a word stands for. -/
def ofName? (word : String) : Option Plain :=
  all.find? fun p => p.name == word

theorem ofName?_name (p : Plain) : ofName? p.name = some p := by
  cases p <;> decide

end Plain

/-- Whether a parameter carries a value in, or the address of a place to store one. -/
inductive Direction where
  | input
  | output
  deriving DecidableEq

namespace Direction

/-- The word for a direction. -/
def name : Direction → String
  | input => "in"
  | output => "out"

/-- The direction a word stands for. -/
def ofName? (word : String) : Option Direction :=
  [input, output].find? fun d => d.name == word

theorem ofName?_name (d : Direction) : ofName? d.name = some d := by
  cases d <;> decide

end Direction

/-! ## 2. Types -/

mutual

/-- A type of the boundary: a plain one, or a function pointer with a signature of its own. -/
inductive Ty where
  | plain (p : Plain)
  | callback (params : List Param) (result : Ty)

/-- A named position of a parameter list. -/
structure Param where
  name : String
  ty : Ty
  direction : Direction

end

instance : Inhabited Ty := ⟨.plain .void⟩

mutual

/-- The notation of a type in diagnostics. Of a callback it shows types only. -/
def Ty.text : Ty → String
  | .plain p => p.name
  | .callback params result =>
    "callback(" ++ ", ".intercalate (Param.typeTexts params) ++ ") -> " ++ result.text
termination_by structural t => t

/-- The notation of a parameter's type. -/
def Param.typeText : Param → String
  | ⟨_, ty, _⟩ => ty.text
termination_by structural p => p

/-- The notations of the types of a parameter list. -/
def Param.typeTexts : List Param → List String
  | [] => []
  | p :: ps => p.typeText :: Param.typeTexts ps
termination_by structural ps => ps

end

theorem Param.typeTexts_eq_map : ∀ ps : List Param, Param.typeTexts ps = ps.map (·.ty.text)
  | [] => rfl
  | ⟨_, _, _⟩ :: ps => by
    simp [Param.typeTexts, Param.typeText, Param.typeTexts_eq_map ps]

namespace Ty

/-- Whether a type is one that travels as a pointer. -/
def isReference : Ty → Bool
  | .plain .string | .plain .handle | .callback _ _ => true
  | .plain _ => false

/-- Whether a type is an integer of 32 bits. -/
def isIntegral32 : Ty → Bool
  | .plain .i32 | .plain .u32 => true
  | _ => false

/-- Whether a type is the text type, whose values are decoded and encoded by the glue. -/
def isString : Ty → Bool
  | .plain .string => true
  | _ => false

/-- The bytes a value takes in linear memory. `void` and references have no width of their own. -/
def width? : Ty → Option Nat
  | .plain .i8 | .plain .u8 => some 1
  | .plain .i16 | .plain .u16 => some 2
  | .plain .i32 | .plain .u32 | .plain .f32 => some 4
  | .plain .i64 | .plain .u64 | .plain .f64 => some 8
  | .plain .void | .plain .string | .plain .handle | .callback _ _ => none

end Ty

/-! ## 3. Equality -/

mutual

/-- Whether two types are equal. -/
def Ty.same : Ty → Ty → Bool
  | .plain a, .plain b => a == b
  | .callback ps r, .callback qs s => Param.sameList ps qs && r.same s
  | _, _ => false
termination_by structural t => t

/-- Whether two parameters are equal. -/
def Param.same : Param → Param → Bool
  | ⟨n, t, d⟩, q => n == q.name && t.same q.ty && d == q.direction
termination_by structural p => p

/-- Whether two parameter lists are equal. -/
def Param.sameList : List Param → List Param → Bool
  | [], [] => true
  | p :: ps, q :: qs => p.same q && Param.sameList ps qs
  | _, _ => false
termination_by structural ps => ps

end

mutual

theorem Ty.same_iff : ∀ t u : Ty, t.same u = true ↔ t = u
  | .plain a, .plain b => by simp [Ty.same]
  | .plain _, .callback _ _ => by simp [Ty.same]
  | .callback _ _, .plain _ => by simp [Ty.same]
  | .callback ps r, .callback qs s => by
    simp [Ty.same, Param.sameList_iff ps qs, Ty.same_iff r s]

theorem Param.same_iff : ∀ p q : Param, p.same q = true ↔ p = q
  | ⟨n, t, d⟩, ⟨m, u, e⟩ => by
    simp [Param.same, Ty.same_iff t u, and_assoc]

theorem Param.sameList_iff : ∀ ps qs : List Param, Param.sameList ps qs = true ↔ ps = qs
  | [], [] => by simp [Param.sameList]
  | [], _ :: _ => by simp [Param.sameList]
  | _ :: _, [] => by simp [Param.sameList]
  | p :: ps, q :: qs => by
    simp [Param.sameList, Param.same_iff p q, Param.sameList_iff ps qs]

end

instance : DecidableEq Ty := fun t u => decidable_of_iff _ (Ty.same_iff t u)

instance : DecidableEq Param := fun p q => decidable_of_iff _ (Param.same_iff p q)

end HostGlue
