/-!
# Splitting at a character

The pieces of a text between the places where a character stands. There is always one piece more than there
are such places.
-/

namespace JavaSource.Text

def splitAll (sep : Char) : List Char → List (List Char)
  | [] => [[]]
  | c :: cs =>
    if c = sep then [] :: splitAll sep cs
    else
      match splitAll sep cs with
      | [] => [[c]]
      | piece :: rest => (c :: piece) :: rest

@[simp] theorem splitAll_nil (sep : Char) : splitAll sep [] = [[]] := rfl

theorem splitAll_ne_nil (sep : Char) (cs : List Char) : splitAll sep cs ≠ [] := by
  cases cs with
  | nil => simp
  | cons c cs =>
    unfold splitAll
    split
    · simp
    · split <;> simp

def joinAll (sep : Char) : List (List Char) → List Char
  | [] => []
  | [piece] => piece
  | piece :: rest => piece ++ sep :: joinAll sep rest

theorem joinAll_splitAll (sep : Char) (cs : List Char) : joinAll sep (splitAll sep cs) = cs := by
  induction cs with
  | nil => rfl
  | cons c cs ih =>
    unfold splitAll
    have hne := splitAll_ne_nil sep cs
    match h : splitAll sep cs with
    | [] => exact absurd h hne
    | [piece] =>
      rw [h] at ih
      by_cases hc : c = sep <;> simp_all [joinAll]
    | piece :: next :: rest =>
      rw [h] at ih
      by_cases hc : c = sep <;> simp_all [joinAll]

theorem notMem_of_mem_splitAll {sep : Char} {cs piece : List Char} (h : piece ∈ splitAll sep cs) :
    sep ∉ piece := by
  induction cs generalizing piece with
  | nil =>
    rw [splitAll_nil, List.mem_singleton] at h
    simp [h]
  | cons c cs ih =>
    unfold splitAll at h
    split at h
    · rcases List.mem_cons.mp h with rfl | h
      · simp
      · exact ih h
    · rename_i hc
      split at h
      · rw [List.mem_singleton.mp h]
        simpa using Ne.symm hc
      · rename_i first rest hs
        rcases List.mem_cons.mp h with rfl | h
        · have hf : sep ∉ first := ih (hs ▸ List.mem_cons_self)
          simp [hf, Ne.symm hc]
        · exact ih (hs ▸ List.mem_cons_of_mem _ h)

def splitString (sep : Char) (s : String) : List String :=
  (splitAll sep s.toList).map String.ofList

/-- What precedes the last place where the character stands, if it does, and what follows it. -/
def splitLast (sep : Char) (s : String) : Option String × String :=
  let tail := (s.toList.reverse.takeWhile (· ≠ sep)).reverse
  match s.toList.reverse.dropWhile (· ≠ sep) with
  | [] => (none, String.ofList tail)
  | _ :: head => (some (String.ofList head.reverse), String.ofList tail)

end JavaSource.Text
