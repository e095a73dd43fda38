import HostGlue.Proofs.Names
import HostGlue.Proofs.Text.Literals

/-!
# Keys of the host object

The live instance and its constructor are values that the host object holds under two keys of the
protocol. Keys may be any texts, and each is written as a literal. This file fixes

* `hostKey?`, the key that an expression at the start of a text denotes, as a lexer reads it, and that
  it is the one the expression was made of (`hostKey?_hostItem`);
* **`encode_exact`: literals are exact for every lexer**, so the two expressions of a checked protocol
  denote two keys, whatever characters they hold.
-/

namespace HostGlue.Entry

open Text.Quoted (Lexer encode)

/-- The key of the host object that an expression at the start of a text denotes, and the text behind
    the expression. -/
def hostKey? (lexer : Lexer) : List Char → Option (List Char × List Char)
  | 'M' :: 'o' :: 'd' :: 'u' :: 'l' :: 'e' :: '[' :: literal =>
    match lexer.read literal with
    | some (key, ']' :: rest) => some (key, rest)
    | _ => none
  | _ => none

/-- The value under a key is written so that the key is read back. -/
theorem hostKey?_hostItem (lexer : Lexer) (key : String) (rest : List Char) :
    hostKey? lexer ((hostItem key).spell.toList ++ rest) = some (key.toList, rest) := by
  have hspell : (hostItem key).spell = "Module" ++ "[" ++ encode key ++ "]" := rfl
  have htext : (hostItem key).spell.toList ++ rest =
      'M' :: 'o' :: 'd' :: 'u' :: 'l' :: 'e' :: '[' :: ((encode key).toList ++ ']' :: rest) := by
    rw [hspell, String.toList_append, String.toList_append, List.append_assoc]
    rfl
  rw [htext, hostKey?, lexer.read_encode]
  rfl

/-- **Literals are exact for every lexer.** Whatever a value holds, and whatever stands behind its
    literal, the value is read back and reading stops right behind the literal. So different values have
    different literals, nothing shorter than a literal is one, and no literal brings a line break. And
    the expressions for the instance and the constructor of a checked protocol denote the two keys of
    the protocol, which differ. -/
theorem encode_exact (lexer : Lexer) :
    (∀ (value : String) (rest : List Char),
      lexer.read ((encode value).toList ++ rest) = some (value.toList, rest)) ∧
    Function.Injective encode ∧
    (∀ (value : String) (before after : List Char), (encode value).toList = before ++ after →
      after ≠ [] → lexer.read before = none) ∧
    (∀ value : String, '\n' ∉ (encode value).toList ∧ '\r' ∉ (encode value).toList) ∧
    ∀ p : Protocol, p.fault? = none → p.instanceKey.toList ≠ p.constructorKey.toList ∧
      ∀ rest, hostKey? lexer ((instanceSlot p).spell.toList ++ rest) =
          some (p.instanceKey.toList, rest) ∧
        hostKey? lexer ((constructorSlot p).spell.toList ++ rest) =
          some (p.constructorKey.toList, rest) := by
  refine ⟨lexer.read_encode, Text.Quoted.encode_injective, fun value before after h ha => ?_,
    Text.Quoted.breaks_not_mem_encode, fun p hp => ⟨fun hkeys => ?_, fun rest => ⟨?_, ?_⟩⟩⟩
  · exact lexer.read_of_prefix h ha
  · exact (Protocol.sound_of_fault? hp).keys_ne (String.toList_injective hkeys)
  · exact hostKey?_hostItem lexer p.instanceKey rest
  · exact hostKey?_hostItem lexer p.constructorKey rest

/-- Keys with a quote, a backslash in front of the last quote, and line breaks. -/
def oddKeys : Protocol := { instanceKey := "it\x27s \\", constructorKey := "it\x27s \\\x27]\r\n" }

theorem encode_exact_sample :
    Lexer.standard.read "\x27it\\\x27s ".toList = none ∧
    oddKeys.fault? = none ∧ oddKeys.instanceKey.toList ≠ oddKeys.constructorKey.toList ∧
    hostKey? Lexer.standard ((instanceSlot oddKeys).spell.toList ++ " = ".toList) =
      some ("it\x27s \\".toList, " = ".toList) := by
  obtain ⟨-, -, hshorter, -, hkeys⟩ := encode_exact Lexer.standard
  have hfault : oddKeys.fault? = none := by decide
  have hliteral : (encode "it\x27s \\").toList = "\x27it\\\x27s ".toList ++ "\\\\\x27".toList := by
    decide
  obtain ⟨hne, hslots⟩ := hkeys oddKeys hfault
  exact ⟨hshorter _ _ _ hliteral (by decide), hfault, hne, (hslots _).1⟩

end HostGlue.Entry
