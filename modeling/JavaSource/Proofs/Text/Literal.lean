import JavaSource.Text.Quoted

/-!
# Reading literals

What stands between the quotes of a literal is read in two steps. First, unicode escapes become the code units that
they name, but a backslash behind an odd number of backslashes begins none. Then the short escapes become single
units. A quoted text ends at its last quote and nowhere before, and it reads as the UTF-16 code units of the text.
-/

namespace JavaSource.Text

/-! ## Code units -/

/-- The characters of a sequence of UTF-16 code units. Surrogates count in pairs only. -/
def ofUnits16 : List Nat → Option (List Char)
  | [] => some []
  | u :: rest =>
    if u < 0xd800 ∨ 0xe000 ≤ u ∧ u < 0x10000 then (ofUnits16 rest).map (Char.ofNat u :: ·)
    else
      match rest with
      | [] => none
      | v :: rest =>
        if 0xd800 ≤ u ∧ u < 0xdc00 ∧ 0xdc00 ≤ v ∧ v < 0xe000 then
          (ofUnits16 rest).map (Char.ofNat (0x10000 + (u - 0xd800) * 0x400 + (v - 0xdc00)) :: ·)
        else none

theorem toNat_cases (c : Char) : c.toNat < 0xd800 ∨ 0xe000 ≤ c.toNat ∧ c.toNat < 0x110000 := by
  rcases c.valid with h | ⟨hlo, hhi⟩
  · exact Or.inl h
  · exact Or.inr ⟨hlo, hhi⟩

theorem units16_of_lt {c : Char} (hc : c.toNat < 0x10000) : units16 c = [c.toNat] := by
  rw [units16, if_pos hc]

theorem units16_of_isPrintableAscii {c : Char} (hc : isPrintableAscii c) : units16 c = [c.toNat] := by
  simp only [isPrintableAscii, Bool.and_eq_true, decide_eq_true_eq] at hc
  exact units16_of_lt (by omega)

theorem lt_of_mem_units16 {c : Char} {u : Nat} (hu : u ∈ units16 c) : u < 0x10000 := by
  have hc := toNat_cases c
  unfold units16 at hu
  split at hu
  · rw [List.mem_singleton] at hu
    omega
  · simp only [List.mem_cons, List.not_mem_nil, or_false] at hu
    omega

theorem ofUnits16_units16 (c : Char) (us : List Nat) :
    ofUnits16 (units16 c ++ us) = (ofUnits16 us).map (c :: ·) := by
  have hc := toNat_cases c
  unfold units16
  split
  · rename_i hlow
    have hscalar : c.toNat < 0xd800 ∨ 0xe000 ≤ c.toNat ∧ c.toNat < 0x10000 := by omega
    rw [List.singleton_append, ofUnits16.eq_def]
    simp only [if_pos hscalar, Char.ofNat_toNat]
  · rename_i hhigh
    generalize hk : c.toNat - 0x10000 = k
    have hpair : 0xd800 ≤ 0xd800 + k / 0x400 ∧ 0xd800 + k / 0x400 < 0xdc00 ∧ 0xdc00 ≤ 0xdc00 + k % 0x400 ∧
        0xdc00 + k % 0x400 < 0xe000 := by omega
    have hscalar : ¬ (0xd800 + k / 0x400 < 0xd800 ∨ 0xe000 ≤ 0xd800 + k / 0x400 ∧
        0xd800 + k / 0x400 < 0x10000) := by omega
    have hcode : 0x10000 + (0xd800 + k / 0x400 - 0xd800) * 0x400 + (0xdc00 + k % 0x400 - 0xdc00) = c.toNat := by
      omega
    rw [List.cons_append, List.singleton_append, ofUnits16.eq_def]
    simp only [if_neg hscalar, if_pos hpair, hcode, Char.ofNat_toNat]

/-- The code units of a text are those of no other text. -/
theorem ofUnits16_flatMap (cs : List Char) : ofUnits16 (cs.flatMap units16) = some cs := by
  induction cs with
  | nil => rfl
  | cons c cs ih => rw [List.flatMap_cons, ofUnits16_units16, ih, Option.map_some]

/-! ## The first step -/

/-- How many backslashes in a row a text ends in that comes behind so many of them. -/
def backslashesAfter (n : Nat) (cs : List Char) : Nat := cs.foldl (fun n c ↦ if c = '\\' then n + 1 else 0) n

def hexValue? (c : Char) : Option Nat :=
  if '0' ≤ c ∧ c ≤ '9' then some (c.toNat - '0'.toNat)
  else if 'a' ≤ c ∧ c ≤ 'f' then some (c.toNat - 'a'.toNat + 10)
  else if 'A' ≤ c ∧ c ≤ 'F' then some (c.toNat - 'A'.toNat + 10)
  else none

/-- The code unit that is named behind the backslash of a unicode escape, and what follows. The letter in front of
the four digits may be repeated. -/
def namedUnit? : List Char → Option (Nat × List Char)
  | 'u' :: 'u' :: rest => namedUnit? ('u' :: rest)
  | 'u' :: a :: b :: c :: d :: rest => do
    let a ← hexValue? a
    let b ← hexValue? b
    let c ← hexValue? c
    let d ← hexValue? d
    return (((a * 16 + b) * 16 + c) * 16 + d, rest)
  | _ => none

theorem length_lt_of_namedUnit? {cs rest : List Char} {u : Nat} (h : namedUnit? cs = some (u, rest)) :
    rest.length < cs.length := by
  induction cs using namedUnit?.induct with
  | case1 cs ih =>
      rw [namedUnit?] at h
      exact Nat.lt_succ_of_lt (ih h)
  | case2 a b c d cs hne =>
      rw [namedUnit?] at h
      · simp only [Option.bind_eq_bind, Option.bind_eq_some_iff, Option.pure_def, Option.some.injEq,
          Prod.mk.injEq] at h
        obtain ⟨_, _, _, _, _, _, _, _, _, rfl⟩ := h
        simp only [List.length_cons]
        omega
      · exact hne
  | case3 cs hne₁ hne₂ =>
      rw [namedUnit?] at h
      · cases h
      · exact hne₁
      · exact hne₂

/-- The code units of a text behind so many backslashes, with unicode escapes replaced. -/
def replaceEscapes (n : Nat) : List Char → Option (List Nat)
  | [] => some []
  | c :: rest =>
    if c = '\\' ∧ n % 2 = 0 ∧ rest.head? = some 'u' then
      match h : namedUnit? rest with
      | none => none
      | some (u, rest') =>
        have := length_lt_of_namedUnit? h
        (replaceEscapes 0 rest').map (u :: ·)
    else (replaceEscapes (if c = '\\' then n + 1 else 0) rest).map (units16 c ++ ·)
  termination_by cs => cs.length

theorem replaceEscapes_cons {n : Nat} {c : Char} {rest : List Char}
    (h : ¬ (c = '\\' ∧ n % 2 = 0 ∧ rest.head? = some 'u')) :
    replaceEscapes n (c :: rest) =
      (replaceEscapes (backslashesAfter n [c]) rest).map (units16 c ++ ·) := by
  rw [replaceEscapes, if_neg h]
  rfl

theorem hexValue?_hexDigit {k : Nat} (hk : k < 16) : hexValue? (hexDigit k) = some k := by
  revert k
  decide

/-- A digit is no letter that opens an escape, no backslash and no quote. -/
theorem hexDigit_plain {k : Nat} (hk : k < 16) :
    isPrintableAscii (hexDigit k) ∧ hexDigit k ∉ ['u', '\\', '"', '\''] := by
  revert k
  decide

theorem namedUnit?_digits {a b c d : Nat} (ha : a < 16) (hb : b < 16) (hc : c < 16) (hd : d < 16)
    (rest : List Char) :
    namedUnit? ('u' :: hexDigit a :: hexDigit b :: hexDigit c :: hexDigit d :: rest) =
      some (((a * 16 + b) * 16 + c) * 16 + d, rest) := by
  rw [namedUnit?]
  · simp only [hexValue?_hexDigit ha, hexValue?_hexDigit hb, hexValue?_hexDigit hc, hexValue?_hexDigit hd,
      Option.bind_eq_bind, Option.bind_some, Option.pure_def]
  · intro h
    exact (hexDigit_plain ha).2 (by simp [h])

/-- Behind an even number of backslashes, an escape is read as the unit that it was written for. -/
theorem replaceEscapes_unicodeEscape {n u : Nat} (hn : n % 2 = 0) (hu : u < 0x10000) (rest : List Char) :
    replaceEscapes n (unicodeEscape u ++ rest) = (replaceEscapes 0 rest).map (u :: ·) := by
  have hvalue : ((u / 0x1000 % 16 * 16 + u / 0x100 % 16) * 16 + u / 0x10 % 16) * 16 + u % 16 = u := by omega
  have hnamed := namedUnit?_digits (Nat.mod_lt (u / 0x1000) (by decide : 16 > 0))
    (Nat.mod_lt (u / 0x100) (by decide : 16 > 0)) (Nat.mod_lt (u / 0x10) (by decide : 16 > 0))
    (Nat.mod_lt u (by decide : 16 > 0)) rest
  rw [hvalue] at hnamed
  have hstart : ('\\' : Char) = '\\' ∧ n % 2 = 0 ∧ (some 'u' : Option Char) = some 'u' := ⟨rfl, hn, rfl⟩
  simp only [unicodeEscape, List.cons_append, List.nil_append]
  rw [replaceEscapes, List.head?_cons, if_pos hstart]
  split
  · rename_i h
    rw [hnamed] at h
    cases h
  · rename_i h
    rw [hnamed] at h
    cases h
    rfl

@[simp] theorem backslashesAfter_append (n : Nat) (cs ds : List Char) :
    backslashesAfter n (cs ++ ds) = backslashesAfter (backslashesAfter n cs) ds := List.foldl_append

@[simp] theorem backslashesAfter_unicodeEscape (n u : Nat) : backslashesAfter n (unicodeEscape u) = 0 := by
  have hlast : hexDigit (u % 16) ≠ '\\' := fun h ↦
    (hexDigit_plain (Nat.mod_lt u (by decide))).2 (by simp [h])
  simp only [backslashesAfter, unicodeEscape, List.foldl_cons, List.foldl_nil, if_neg hlast]

theorem replaceEscapes_flatMap_unicodeEscape {n : Nat} (hn : n % 2 = 0) {us : List Nat}
    (hus : ∀ u ∈ us, u < 0x10000) (rest : List Char) :
    replaceEscapes n (us.flatMap unicodeEscape ++ rest) =
      (replaceEscapes (backslashesAfter n (us.flatMap unicodeEscape)) rest).map (us ++ ·) := by
  induction us generalizing n with
  | nil => simp [backslashesAfter]
  | cons u us ih =>
      rw [List.flatMap_cons, List.append_assoc, replaceEscapes_unicodeEscape hn (hus u List.mem_cons_self),
        ih rfl fun v hv ↦ hus v (List.mem_cons_of_mem u hv), backslashesAfter_append,
        backslashesAfter_unicodeEscape, Option.map_map]
      rfl

/-! ## The second step -/

/-- The units behind the backslash of a short escape, each with the unit that it stands for. -/
def shortEscapes : List (Nat × Nat) :=
  [('b'.toNat, 0x08), ('t'.toNat, 0x09), ('n'.toNat, 0x0a), ('f'.toNat, 0x0c), ('r'.toNat, 0x0d),
    ('"'.toNat, '"'.toNat), ('\''.toNat, '\''.toNat), ('\\'.toNat, '\\'.toNat)]

/-- A unit that stands for itself between the quotes: no backslash, no delimiter and no line end. -/
def isPlainUnit (delimiter u : Nat) : Bool :=
  u ≠ '\\'.toNat && u ≠ delimiter && u ≠ '\n'.toNat && u ≠ '\r'.toNat

/-- The units of a literal, with the short escapes of its body replaced. -/
def unescape (delimiter : Nat) : List Nat → Option (List Nat)
  | [] => some []
  | u :: rest =>
    if u = '\\'.toNat then
      match rest with
      | [] => none
      | e :: rest => do
        let v ← shortEscapes.lookup e
        let vs ← unescape delimiter rest
        return v :: vs
    else if isPlainUnit delimiter u then (unescape delimiter rest).map (u :: ·)
    else none

/-- The units of what stands between two delimiters. -/
def readBody (delimiter : Char) (body : List Char) : Option (List Nat) :=
  (replaceEscapes 0 body).bind (unescape delimiter.toNat)

theorem unescape_append_of_plain {d : Nat} {us : List Nat} (hus : ∀ u ∈ us, isPlainUnit d u) (rest : List Nat) :
    unescape d (us ++ rest) = (unescape d rest).map (us ++ ·) := by
  induction us with
  | nil => simp
  | cons u us ih =>
      have hu := hus u List.mem_cons_self
      have hback : u ≠ '\\'.toNat := by
        simp only [isPlainUnit, Bool.and_eq_true, decide_eq_true_eq] at hu
        exact hu.1.1.1
      have hrest := ih fun v hv ↦ hus v (List.mem_cons_of_mem u hv)
      rw [List.cons_append, unescape.eq_def]
      simp only [if_neg hback, if_pos hu, hrest, Option.map_map]
      rfl

theorem unescape_short (d : Nat) {e v : Nat} (he : shortEscapes.lookup e = some v) (rest : List Nat) :
    unescape d ('\\'.toNat :: e :: rest) = (unescape d rest).map (v :: ·) := by
  rw [unescape, if_pos rfl]
  simp only [he, Option.bind_eq_bind, Option.bind_some, Option.pure_def]
  cases unescape d rest <;> rfl

/-! ## Reading what was quoted -/

theorem escapeLetter?_eq_some {c e : Char} (h : escapeLetter? c = some e) :
    c.toNat < 0x80 ∧ e ≠ 'u' ∧ isPrintableAscii e ∧ shortEscapes.lookup e.toNat = some c.toNat := by
  unfold escapeLetter? at h
  split at h <;> first | (cases h; decide) | cases h

theorem escapeLetter?_eq_none {c : Char} (h : escapeLetter? c = none) :
    c ∉ ['\\', '"', '\'', '\n', '\r'] := by
  intro hc
  simp only [List.mem_cons, List.not_mem_nil, or_false] at hc
  rcases hc with rfl | rfl | rfl | rfl | rfl <;> cases h

theorem isPlainUnit_toNat {d c : Char} (hc : c ∉ ['\\', d, '\n', '\r']) : isPlainUnit d.toNat c.toNat := by
  simp only [List.mem_cons, List.not_mem_nil, or_false, not_or] at hc
  simp only [isPlainUnit, Bool.and_eq_true, decide_eq_true_eq]
  exact ⟨⟨⟨mt Char.toNat_inj.mp hc.1, mt Char.toNat_inj.mp hc.2.1⟩, mt Char.toNat_inj.mp hc.2.2.1⟩,
    mt Char.toNat_inj.mp hc.2.2.2⟩

theorem mem_unicodeEscape {u : Nat} {x : Char} (hx : x ∈ unicodeEscape u) :
    isPrintableAscii x ∧ x ∉ ['"', '\''] := by
  have hdigit : ∀ k, isPrintableAscii (hexDigit (k % 16)) ∧ hexDigit (k % 16) ∉ ['"', '\''] := fun k ↦ by
    obtain ⟨hprintable, hplain⟩ := hexDigit_plain (Nat.mod_lt k (by decide))
    exact ⟨hprintable, fun h ↦ hplain (List.mem_cons_of_mem _ (List.mem_cons_of_mem _ h))⟩
  simp only [unicodeEscape, List.mem_cons, List.not_mem_nil, or_false] at hx
  rcases hx with rfl | rfl | rfl | rfl | rfl | rfl
  · decide
  · decide
  all_goals exact hdigit _

section Delimited

variable {d : Char} (hd : d = '"' ∨ d = '\'')
include hd

theorem notMem_of_escapeLetter?_eq_none {c : Char} (hc : escapeLetter? c = none) :
    c ∉ ['\\', d, '\n', '\r'] := by
  have hnot := escapeLetter?_eq_none hc
  simp only [List.mem_cons, List.not_mem_nil, or_false, not_or] at hnot ⊢
  rcases hd with rfl | rfl
  · exact ⟨hnot.1, hnot.2.1, hnot.2.2.2⟩
  · exact ⟨hnot.1, hnot.2.2⟩

/-- A character between quotes is escaped by a letter, stands for itself, or is written in digits. -/
theorem quoteChar_cases (c : Char) :
    (∃ e, escapeLetter? c = some e ∧ quoteChar d c = ['\\', e]) ∨
    (isPrintableAscii c ∧ c ∉ ['\\', d, '\n', '\r'] ∧ quoteChar d c = [c]) ∨
    (escapeLetter? c = none ∧ quoteChar d c = (units16 c).flatMap unicodeEscape) := by
  cases he : escapeLetter? c with
  | none =>
      by_cases hc : isPrintableAscii c
      · exact Or.inr (Or.inl ⟨hc, notMem_of_escapeLetter?_eq_none hd he, by simp [quoteChar, he, hc]⟩)
      · exact Or.inr (Or.inr ⟨rfl, by simp [quoteChar, he, hc]⟩)
  | some e =>
      by_cases hother : isOtherQuote d c
      · refine Or.inr (Or.inl ?_)
        have hraw : quoteChar d c = [c] := by simp [quoteChar, he, hother]
        simp only [isOtherQuote, Bool.or_eq_true, Bool.and_eq_true, decide_eq_true_eq] at hother
        rcases hother with ⟨rfl, rfl⟩ | ⟨rfl, rfl⟩
        · exact ⟨by decide, by decide, hraw⟩
        · exact ⟨by decide, by decide, hraw⟩
      · exact Or.inl ⟨e, rfl, by simp [quoteChar, he, hother]⟩

/-- A unit that is written in digits stands for itself after the first step. -/
theorem isPlainUnit_of_mem_units16 {c : Char} (hc : escapeLetter? c = none) {u : Nat}
    (hu : u ∈ units16 c) : isPlainUnit d.toNat u := by
  unfold units16 at hu
  split at hu
  · rw [List.mem_singleton] at hu
    exact hu ▸ isPlainUnit_toNat (notMem_of_escapeLetter?_eq_none hd hc)
  · have hlarge : 0xd800 ≤ u := by
      simp only [List.mem_cons, List.not_mem_nil, or_false] at hu
      omega
    simp only [isPlainUnit, Bool.and_eq_true, decide_eq_true_eq]
    rcases hd with rfl | rfl <;> refine ⟨⟨⟨?_, ?_⟩, ?_⟩, ?_⟩ <;> apply Nat.ne_of_gt <;>
      exact Nat.lt_of_lt_of_le (by decide) hlarge

theorem isPrintableAscii_of_mem_quoteChar {c x : Char}
    (hx : x ∈ quoteChar d c) : isPrintableAscii x := by
  rcases quoteChar_cases hd c with ⟨e, he, hq⟩ | ⟨hc, _, hq⟩ | ⟨_, hq⟩
  · rw [hq] at hx
    simp only [List.mem_cons, List.not_mem_nil, or_false] at hx
    rcases hx with rfl | rfl
    · decide
    · exact (escapeLetter?_eq_some he).2.2.1
  · rw [hq, List.mem_singleton] at hx
    exact hx ▸ hc
  · rw [hq, List.mem_flatMap] at hx
    obtain ⟨u, _, hx⟩ := hx
    exact (mem_unicodeEscape hx).1

/-- The number of backslashes behind a quoted character is even again. -/
theorem backslashesAfter_quoteChar {n : Nat} (hn : n % 2 = 0) (c : Char) :
    backslashesAfter n (quoteChar d c) % 2 = 0 := by
  rcases quoteChar_cases hd c with ⟨e, he, hq⟩ | ⟨_, hplain, hq⟩ | ⟨_, hq⟩
  · simp only [hq, backslashesAfter, List.foldl_cons, List.foldl_nil, if_true]
    split
    · omega
    · rfl
  · have hback : c ≠ '\\' := fun h ↦ hplain (by simp [h])
    simp only [hq, backslashesAfter, List.foldl_cons, List.foldl_nil, if_neg hback]
  · rw [hq]
    clear hq
    induction units16 c generalizing n with
    | nil => exact hn
    | cons u us ih =>
        rw [List.flatMap_cons, backslashesAfter_append, backslashesAfter_unicodeEscape]
        exact ih rfl

/-- The code units of a quoted character, after the first step and after the second. -/
theorem reads_quoteChar (c : Char) :
    ∃ us, (∀ n rest, n % 2 = 0 → replaceEscapes n (quoteChar d c ++ rest) =
        (replaceEscapes (backslashesAfter n (quoteChar d c)) rest).map (us ++ ·)) ∧
      ∀ rest, unescape d.toNat (us ++ rest) = (unescape d.toNat rest).map (units16 c ++ ·) := by
  rcases quoteChar_cases hd c with ⟨e, he, hq⟩ | ⟨hc, hplain, hq⟩ | ⟨hc, hq⟩
  · obtain ⟨hlow, hu, hprintable, hshort⟩ := escapeLetter?_eq_some he
    refine ⟨['\\'.toNat, e.toNat], fun n rest hn ↦ ?_, fun rest ↦ ?_⟩
    · have hfirst : ¬ ('\\' = '\\' ∧ n % 2 = 0 ∧ (e :: rest).head? = some 'u') := fun h ↦
        hu (Option.some.inj h.2.2)
      have hsecond : ¬ (e = '\\' ∧ backslashesAfter n ['\\'] % 2 = 0 ∧ rest.head? = some 'u') := fun h ↦ by
        have : (n + 1) % 2 = 0 := h.2.1
        omega
      rw [hq, List.cons_append, List.singleton_append, replaceEscapes_cons hfirst, replaceEscapes_cons hsecond,
        Option.map_map, units16_of_isPrintableAscii hprintable]
      rfl
    · rw [units16_of_lt (Nat.lt_trans hlow (by decide))]
      exact unescape_short d.toNat hshort rest
  · refine ⟨units16 c, fun n rest hn ↦ ?_, unescape_append_of_plain fun u hu ↦ ?_⟩
    · have hback : c ≠ '\\' := fun h ↦ hplain (by simp [h])
      rw [hq, List.singleton_append, replaceEscapes_cons fun h ↦ hback h.1]
    · rw [units16_of_isPrintableAscii hc, List.mem_singleton] at hu
      exact hu ▸ isPlainUnit_toNat hplain
  · refine ⟨units16 c, fun n rest hn ↦ ?_, unescape_append_of_plain fun u hu ↦ ?_⟩
    · rw [hq]
      exact replaceEscapes_flatMap_unicodeEscape hn (fun u hu ↦ lt_of_mem_units16 hu) rest
    · exact isPlainUnit_of_mem_units16 hd hc hu

/-- Both steps over a quoted text, from any place that an even number of backslashes stands in front of. -/
theorem reads_quoteChars (cs : List Char) {n : Nat} (hn : n % 2 = 0) :
    ∃ us, replaceEscapes n (quoteChars d cs) = some us ∧ unescape d.toNat us = some (cs.flatMap units16) := by
  induction cs generalizing n with
  | nil => exact ⟨[], by simp [replaceEscapes], rfl⟩
  | cons c cs ih =>
      obtain ⟨us, hreplace, hunescape⟩ := reads_quoteChar hd c
      obtain ⟨vs, hvs, hrest⟩ := ih (backslashesAfter_quoteChar hd hn c)
      refine ⟨us ++ vs, ?_, ?_⟩
      · rw [quoteChars_cons, hreplace n _ hn, hvs, Option.map_some]
      · rw [hunescape, hrest, Option.map_some, List.flatMap_cons]

theorem backslashesAfter_quoteChars (cs : List Char) {n : Nat}
    (hn : n % 2 = 0) : backslashesAfter n (quoteChars d cs) % 2 = 0 := by
  induction cs generalizing n with
  | nil => exact hn
  | cons c cs ih =>
      rw [quoteChars_cons, backslashesAfter_append]
      exact ih (backslashesAfter_quoteChar hd hn c)

/-- Where the delimiter stands in a quoted character, a backslash escapes it. -/
theorem backslashesAfter_of_quoteChar_eq {n : Nat} (hn : n % 2 = 0) {c : Char}
    {pre post : List Char} (h : quoteChar d c = pre ++ d :: post) : backslashesAfter n pre % 2 = 1 := by
  have hback : '\\' ≠ d := by rcases hd with rfl | rfl <;> decide
  rcases quoteChar_cases hd c with ⟨e, _, hq⟩ | ⟨_, hplain, hq⟩ | ⟨_, hq⟩
  · rw [hq] at h
    match pre with
    | [] => exact absurd (List.cons.inj h).1 hback
    | [x] =>
        obtain ⟨rfl, _⟩ := List.cons.inj h
        have hodd : backslashesAfter n ['\\'] = n + 1 := rfl
        omega
    | x :: y :: pre => simp at h
  · rw [hq] at h
    cases pre with
    | nil => exact absurd (by simp [(List.cons.inj h).1]) hplain
    | cons x pre => simp at h
  · have hd' : d ∈ (units16 c).flatMap unicodeEscape := hq ▸ h ▸ List.mem_append_right pre List.mem_cons_self
    obtain ⟨u, _, hu⟩ := List.mem_flatMap.mp hd'
    exact absurd (by simpa using hd) (mem_unicodeEscape hu).2

theorem backslashesAfter_of_quoteChars_eq {n : Nat} (hn : n % 2 = 0)
    {cs pre post : List Char} (h : quoteChars d cs = pre ++ d :: post) : backslashesAfter n pre % 2 = 1 := by
  induction cs generalizing n pre with
  | nil => cases pre <;> cases h
  | cons c cs ih =>
      rw [quoteChars_cons, List.append_eq_append_iff] at h
      rcases h with ⟨pre', rfl, h⟩ | ⟨post', h, hpost⟩
      · rw [backslashesAfter_append]
        exact ih (backslashesAfter_quoteChar hd hn c) h
      · cases post' with
        | nil =>
            rw [List.append_nil] at h
            subst h
            have hrest : quoteChars d cs = [] ++ d :: post := hpost.symm
            exact ih (backslashesAfter_quoteChar hd hn c) hrest
        | cons x post' =>
            obtain ⟨rfl, _⟩ := List.cons.inj hpost
            exact backslashesAfter_of_quoteChar_eq hd hn h

end Delimited

/-- A quoted text is printable, ends at its last quote and nowhere before, and reads as the units of the text. -/
theorem quoted_reads_back {d : Char} (hd : d = '"' ∨ d = '\'') (s : String) :
    (∀ c ∈ (quoted d s).toList, isPrintableAscii c) ∧
    (∀ pre post, (quoted d s).toList = pre ++ d :: post →
      (backslashesAfter 0 pre % 2 = 0 ↔ pre = [] ∨ post = [])) ∧
    ∃ body, (quoted d s).toList = d :: body ++ [d] ∧ readBody d body = some (s.toList.flatMap units16) ∧
      ofUnits16 (s.toList.flatMap units16) = some s.toList := by
  refine ⟨fun c hc ↦ ?_, fun pre post h ↦ ?_, quoteChars d s.toList, toList_quoted d s, ?_,
    ofUnits16_flatMap s.toList⟩
  · have hquote : isPrintableAscii d := by rcases hd with rfl | rfl <;> decide
    simp only [toList_quoted, quoteChars, List.cons_append, List.mem_cons, List.mem_append, List.mem_flatMap,
      List.not_mem_nil, or_false] at hc
    rcases hc with rfl | ⟨x, _, hx⟩ | rfl
    · exact hquote
    · exact isPrintableAscii_of_mem_quoteChar hd hx
    · exact hquote
  · cases pre with
    | nil => exact iff_of_true rfl (Or.inl rfl)
    | cons x pre =>
        rw [toList_quoted, List.cons_append, List.cons_append, List.cons.injEq] at h
        obtain ⟨rfl, h⟩ := h
        have hfirst : backslashesAfter 0 (d :: pre) = backslashesAfter 0 pre := by
          rcases hd with rfl | rfl <;> rfl
        rw [hfirst]
        rcases List.eq_nil_or_concat post with rfl | ⟨post, y, rfl⟩
        · rw [(List.append_inj' h rfl).1.symm]
          exact iff_of_true (backslashesAfter_quoteChars hd _ rfl) (Or.inr rfl)
        · -- With something behind it, the delimiter stands in the body.
          rw [List.concat_eq_append, ← List.cons_append, ← List.append_assoc] at h
          have hodd := backslashesAfter_of_quoteChars_eq hd (n := 0) rfl (List.append_inj' h rfl).1
          refine iff_of_false (by omega) ?_
          simp
  · obtain ⟨us, hreplace, hunescape⟩ := reads_quoteChars hd s.toList (n := 0) rfl
    rw [readBody, hreplace, Option.bind_some, hunescape]

/-- Backslashes in front of a letter, a quote of either sort, a control character and a pair of surrogates. -/
theorem quoted_reads_back_escapes :
    ('"' = '"' ∨ '"' = '\'') ∧
    ∃ body, (quoted '"' "\\u\\é\"'\x07😀").toList = '"' :: body ++ ['"'] ∧
      readBody '"' body = some [0x5c, 0x75, 0x5c, 0xe9, 0x22, 0x27, 0x07, 0xd83d, 0xde00] := by
  obtain ⟨body, hbody, hread, _⟩ := (quoted_reads_back (Or.inl rfl) "\\u\\é\"'\x07😀").2.2
  exact ⟨Or.inl rfl, body, hbody, hread⟩

end JavaSource.Text
