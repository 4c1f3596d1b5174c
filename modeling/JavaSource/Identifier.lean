import JavaSource.Text.Numeric

/-!
# Identifiers

Names are checked when something is declared. The first fault found is reported: emptiness, then the first
character, then the others, then the reserved words.
-/

namespace JavaSource

def reservedWords : List String :=
  ["abstract", "assert", "boolean", "break", "byte", "case", "catch", "char", "class", "const",
   "continue", "default", "do", "double", "else", "enum", "extends", "final", "finally", "float",
   "for", "goto", "if", "implements", "import", "instanceof", "int", "interface", "long",
   "native", "new", "package", "private", "protected", "public", "return", "short", "static",
   "strictfp", "super", "switch", "synchronized", "this", "throw", "throws", "transient", "try",
   "void", "volatile", "while", "_", "true", "false", "null"]

def isReserved (name : String) : Bool := reservedWords.contains name

def isIdentifierStart (c : Char) : Bool := Text.isAlphabetic c || c = '_' || c = '$'

def isIdentifierPart (c : Char) : Bool := Text.isAlphanumeric c || c = '_' || c = '$'

theorem isIdentifierPart_of_start {c : Char} (h : isIdentifierStart c = true) :
    isIdentifierPart c = true := by
  simp only [isIdentifierStart, isIdentifierPart, Text.isAlphanumeric, Bool.or_eq_true] at *
  rcases h with (h | h) | h <;> simp [h]

inductive NameFault where
  | empty
  | badStart
  | badPart
  | reserved
  deriving DecidableEq

def NameFault.reason : NameFault → String
  | .empty => "name cannot be empty"
  | .badStart => "name must start with a letter, underscore or dollar sign"
  | .badPart => "name must contain only letters, digits, underscores and dollar signs"
  | .reserved => "name is a Java reserved word"

def nameFault? (name : String) : Option NameFault :=
  match name.toList with
  | [] => some .empty
  | c :: cs =>
    if !isIdentifierStart c then some .badStart
    else if !cs.all isIdentifierPart then some .badPart
    else if isReserved name then some .reserved
    else none

theorem isIdentifierPart_of_mem {name : String} (h : nameFault? name = none) {c : Char} (hc : c ∈ name.toList) :
    isIdentifierPart c = true := by
  unfold nameFault? at h
  split at h
  · cases h
  · rename_i first rest hname
    rw [hname] at hc
    split at h
    · cases h
    · rename_i hfirst
      split at h
      · cases h
      · rename_i hrest
        rcases List.mem_cons.mp hc with rfl | hc
        · exact isIdentifierPart_of_start (by simpa using hfirst)
        · exact List.all_eq_true.mp (by simpa using hrest) c hc

end JavaSource
