import JavaSource.JavaType.Basic
import JavaSource.Text.ExtendingMark
import JavaSource.Text.Unprintable

/-!
# Outlines of types

Messages about a type that cannot be used show how it is built: every node by its name, classes by their
handles, names in double quotes with escapes.
-/

namespace JavaSource

/-- Characters that a quoted name shows by code point. -/
def isHidden (c : Char) : Bool := Text.isUnprintable c || Text.isExtendingMark c

theorem isHidden_eq_false {c : Char} (hlo : 0x20 ≤ c.toNat) (hhi : c.toNat < 0x7f) :
    isHidden c = false := by
  have h : c.toNat < 0x300 := by omega
  simp [isHidden, Text.isUnprintable_eq_false hlo hhi, Text.isExtendingMark_eq_false h]

def escapedNameChar (c : Char) : List Char :=
  match c with
  | '\x00' => ['\\', '0']
  | '\t' => ['\\', 't']
  | '\n' => ['\\', 'n']
  | '\r' => ['\\', 'r']
  | '"' => ['\\', '"']
  | '\\' => ['\\', '\\']
  | c =>
    if isHidden c then ['\\', 'u', '\x7b'] ++ Nat.toDigits 16 c.toNat ++ ['\x7d'] else [c]

def quotedName (s : String) : String :=
  String.ofList ('"' :: s.toList.flatMap escapedNameChar ++ ['"'])

def Primitive.outline : Primitive → String
  | boolean => "Boolean"
  | byte => "Byte"
  | char => "Char"
  | short => "Short"
  | int => "Int"
  | long => "Long"
  | float => "Float"
  | double => "Double"
  | void => "Void"

def ClassId.outline (c : ClassId) : String := s!"ClassId({c.index})"

namespace JavaType

mutual

def outline : JavaType → String
  | primitive p => s!"Primitive({p.outline})"
  | reference c => s!"Reference({c.outline})"
  | array t => s!"Array({outline t})"
  | narrowed c args =>
    "Narrowed \x7b basis: " ++ c.outline ++ ", args: [" ++ outlineList args ++ "] \x7d"
  | var n none => "Var(TypeVar \x7b name: " ++ quotedName n ++ ", bound: None \x7d)"
  | var n (some b) =>
    "Var(TypeVar \x7b name: " ++ quotedName n ++ ", bound: Some(" ++ outline b ++ ") \x7d)"
  | wildcard => "Wildcard(Unbounded)"
  | wildcardExtends b => s!"Wildcard(Extends({outline b}))"
  | wildcardSuper b => s!"Wildcard(Super({outline b}))"
  | anonymous c => s!"Anonymous({c.outline})"

def outlineList : List JavaType → String
  | [] => ""
  | [t] => outline t
  | t :: ts => outline t ++ ", " ++ outlineList ts

end

end JavaType
end JavaSource
