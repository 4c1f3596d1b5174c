import Mathlib.Data.List.TakeDrop
import JavaSource.Proofs.Expression.Reader

/-!
# Printed expressions are read back

The text of a plain expression is a head with field accesses and calls behind it. It is read back as the expression
whatever follows, as long as it can be told where the expression stops. So no two plain expressions have one text.
-/

namespace JavaSource.Expr

/-- What may stand behind the head of an expression. -/
def Continues (rest : List Char) : Prop := ∀ c ∈ rest.head?, c ∈ ['.', ')', ',', ' ']

/-- What may stand behind an expression. -/
def Stops (rest : List Char) : Prop := ∀ c ∈ rest.head?, c ∈ [')', ',', ' ']

theorem Stops.continues {rest : List Char} (h : Stops rest) : Continues rest := fun c hc ↦
  List.mem_cons_of_mem _ (h c hc)

theorem stops_cons {c : Char} (hc : c ∈ [')', ',', ' ']) (rest : List Char) : Stops (c :: rest) := fun _ hd ↦
  Option.some.inj hd ▸ hc

theorem continues_cons {c : Char} (hc : c ∈ ['.', ')', ',', ' ']) (rest : List Char) : Continues (c :: rest) :=
  fun _ hd ↦ Option.some.inj hd ▸ hc

/-! ## Words -/

@[simp] theorem behind_cons_self (c : Char) (rest : List Char) : behind c (c :: rest) = some rest := if_pos rfl

theorem behind_eq_none {c : Char} {cs : List Char} (h : cs.head? ≠ some c) : behind c cs = none := by
  cases cs with
  | nil => rfl
  | cons d cs => exact if_neg fun hd ↦ h (by rw [hd]; rfl)

theorem Continues.behind_bracket {rest : List Char} (h : Continues rest) : behind '(' rest = none :=
  behind_eq_none fun hhead ↦ absurd (h _ hhead) (by decide)

theorem Stops.behind_point {rest : List Char} (h : Stops rest) : behind '.' rest = none :=
  behind_eq_none fun hhead ↦ absurd (h _ hhead) (by decide)

theorem span_append {p : Char → Bool} {word rest : List Char} (hword : ∀ c ∈ word, p c = true)
    (hrest : ∀ c ∈ rest.head?, p c = false) : (word ++ rest).span p = (word, rest) := by
  rw [List.span_eq_takeWhile_dropWhile, List.takeWhile_append_of_pos hword, List.dropWhile_append_of_pos hword]
  cases rest with
  | nil => simp
  | cons c rest => simp [hrest c rfl]

theorem ofName?_eq_name {n : String} (hn : nameFault? n = none) : ofName? n = some (.name n) := by
  have hne : ∀ reserved, nameFault? reserved ≠ none → n ≠ reserved := by
    rintro _ h rfl
    exact h hn
  have hwords : ∀ word ∈ ["null", "this", "true", "false"], n ≠ word := by
    have hreserved : ∀ word ∈ ["null", "this", "true", "false"], nameFault? word ≠ none := by decide
    exact fun word hword ↦ hne word (hreserved word hword)
  simp only [List.forall_mem_cons, List.not_mem_nil, false_imp_iff, implies_true, and_true] at hwords
  obtain ⟨hnull, hthis, htrue, hfalse⟩ := hwords
  rw [ofName?, if_neg hnull, if_neg hthis, if_neg htrue, if_neg hfalse, if_pos hn]

theorem ofWord?_name {n : String} (hn : nameFault? n = none) : ofWord? n.toList = some (.name n) := by
  have hstart : n.toList.head?.any isIdentifierStart = true := by
    revert hn
    unfold nameFault?
    split
    · simp
    · rename_i first _ h
      cases hfirst : isIdentifierStart first <;> simp [h, hfirst]
  rw [ofWord?, hstart, if_pos rfl, String.ofList_toList, ofName?_eq_name hn]

theorem ofWord?_intText (n : Int) (suffix : List Char) :
    ofWord? ((intText n).toList ++ suffix) = ofNumber? ((intText n).toList ++ suffix) := by
  obtain ⟨k, h⟩ := toList_intText n
  obtain ⟨d, ds, hds⟩ := List.exists_cons_of_ne_nil (Nat.toDigits_ne_nil (b := 10) (n := k))
  have hd : isIdentifierStart d = false :=
    (identifierPart_of_isDigit (isDigit_of_mem_toDigits (hds ▸ List.mem_cons_self))).2
  have hsign : isIdentifierStart '-' = false := by decide
  refine if_neg ?_
  rcases h with h | h
  · simp [h, hds, hd]
  · simp [h, hsign]

theorem readNat_toDigits (k : Nat) : readNat (Nat.toDigits 10 k) = some k := by
  rw [readNat, if_pos, Nat.ofDigitChars_toDigits (by decide) (by decide)]
  exact ⟨Nat.toDigits_ne_nil, List.all_eq_true.mpr fun _ ↦ isDigit_of_mem_toDigits⟩

theorem readInt_intText (n : Int) : readInt (intText n).toList = some n := by
  cases n with
  | ofNat k =>
      have hsign : (Nat.toDigits 10 k).head? ≠ some '-' := fun h ↦
        absurd (isDigit_of_mem_toDigits (List.mem_of_head? h)) (by decide)
      rw [toList_intText_ofNat, readInt, if_neg hsign, readNat_toDigits]
      rfl
  | negSucc k =>
      rw [toList_intText_negSucc, readInt, List.head?_cons, if_pos rfl, List.tail_cons, readNat_toDigits]
      rfl

theorem ofWord?_int (n : Int32) : ofWord? (intText n.toInt).toList = some (.int n) := by
  have hword := ofWord?_intText n.toInt []
  have hlast : (intText n.toInt).toList.getLast? ≠ some 'L' := fun hlast ↦
    absurd (isDigit_of_mem_intText (List.mem_of_getLast? hlast)) (by decide)
  rw [List.append_nil] at hword
  rw [hword, ofNumber?, if_neg hlast, readInt_intText, Option.map_some, Int32.ofInt_toInt]

theorem ofWord?_long (n : Int64) : ofWord? ((intText n.toInt).toList ++ ['L']) = some (.long n) := by
  rw [ofWord?_intText, ofNumber?, if_pos List.getLast?_concat, List.dropLast_concat, readInt_intText,
    Option.map_some, Int64.ofInt_toInt]

/-! ## Literals and words at the front -/

variable {m : Model} {r : Resolution} {read : Reader Expr}

/-- A body is read up to its end where each quote in it is escaped. -/
theorem untilQuote_append (rest : List Char) : ∀ (body : List Char) (n : Nat),
    (∀ pre post, body = pre ++ '"' :: post → Text.backslashesAfter n pre % 2 = 1) →
      Text.backslashesAfter n body % 2 = 0 → untilQuote n (body ++ '"' :: rest) = some (body, rest)
  | [], n, _, heven => if_pos ⟨rfl, heven⟩
  | c :: body, n, hquote, heven => by
    have hc : ¬ (c = '"' ∧ n % 2 = 0) := by
      rintro ⟨rfl, hn⟩
      have hodd : n % 2 = 1 := hquote [] body rfl
      omega
    have ih := untilQuote_append rest body (Text.backslashesAfter n [c])
      (fun pre post h ↦ hquote (c :: pre) post (by rw [h, List.cons_append])) heven
    rw [List.cons_append, untilQuote, if_neg hc, ih, Option.map_some]

theorem readString_append (s : String) (rest : List Char) :
    readString (Text.quoteChars '"' s.toList ++ '"' :: rest) = some (.string s, rest) := by
  have huntil := untilQuote_append rest (Text.quoteChars '"' s.toList) 0
    (fun _ _ ↦ Text.backslashesAfter_of_quoteChars_eq (Or.inl rfl) rfl)
    (Text.backslashesAfter_quoteChars (Or.inl rfl) _ rfl)
  obtain ⟨units, hreplace, hunescape⟩ := Text.reads_quoteChars (Or.inl rfl) s.toList (n := 0) rfl
  have hbody : Text.readBody '"' (Text.quoteChars '"' s.toList) = some (s.toList.flatMap Text.units16) := by
    rw [Text.readBody, hreplace, Option.bind_some, hunescape]
  simp [readString, huntil, hbody, Text.ofUnits16_flatMap]

/-- What a word is made of, and what an opening bracket and a quote are not. -/
theorem ne_of_isWordPart {c : Char} (hc : isWordPart c = true) : c ≠ '(' ∧ c ≠ '"' := by
  constructor <;> (rintro rfl; revert hc; decide)

theorem Continues.not_isWordPart {rest : List Char} (h : Continues rest) :
    ∀ c ∈ rest.head?, isWordPart c = false := by
  have hall : ['.', ')', ',', ' '].all (!isWordPart ·) = true := by decide
  exact fun c hc ↦ by simpa only [Bool.not_eq_true'] using List.all_eq_true.mp hall c (h c hc)

theorem isIdentifierPart_of_not_isWordPart {c : Char} (h : isWordPart c = false) : isIdentifierPart c = false :=
  (Bool.or_eq_false_iff.mp h).1

theorem Continues.not_isIdentifierPart {rest : List Char} (h : Continues rest) :
    ∀ c ∈ rest.head?, isIdentifierPart c = false := fun c hc ↦
  isIdentifierPart_of_not_isWordPart (h.not_isWordPart c hc)

theorem bracket_not_isIdentifierPart {rest : List Char} : ∀ c ∈ ('(' :: rest).head?, isIdentifierPart c = false := by
  rintro c hc
  obtain rfl : '(' = c := Option.some.inj hc
  decide

theorem isWordPart_of_isIdentifierPart {c : Char} (h : isIdentifierPart c = true) : isWordPart c = true := by
  rw [isWordPart, h, Bool.true_or]

theorem isWordPart_of_isDigit {c : Char} (h : c.isDigit = true) : isWordPart c = true :=
  isWordPart_of_isIdentifierPart (identifierPart_of_isDigit h).1

theorem isWordPart_of_mem_intText {n : Int} {c : Char} (hc : c ∈ (intText n).toList) : isWordPart c = true := by
  rcases isDigit_of_mem_intText hc with h | rfl
  · exact isWordPart_of_isDigit h
  · decide

/-- In front of what an expression goes on with, a word is read as the literal or the name that it is. -/
theorem readHead_word {word rest : List Char} (hne : word ≠ []) (hword : ∀ c ∈ word, isWordPart c = true)
    (hrest : Continues rest) : readHead read (word ++ rest) = (ofWord? word).map (·, rest) := by
  obtain ⟨c, cs, rfl⟩ := List.exists_cons_of_ne_nil hne
  obtain ⟨hbracket, hquote⟩ := ne_of_isWordPart (hword c List.mem_cons_self)
  rw [List.cons_append, readHead, if_neg hbracket, if_neg hquote, ← List.cons_append,
    span_append hword hrest.not_isWordPart]
  simp only [hrest.behind_bracket]

/-! ## Arguments -/

/-- The reader reads plain expressions of at most so many characters. -/
def Reads (m : Model) (r : Resolution) (read : Reader Expr) (n : Nat) : Prop :=
  ∀ e : Expr, e.Plain → (line m r e).length ≤ n → ∀ rest, Stops rest → read (line m r e ++ rest) = some (e, rest)

theorem Reads.operand {n : Nat} (hread : Reads m r read n) {x : Expr} (hx : x.Plain)
    (hlen : (line m r x).length ≤ n) {c : Char} (hc : c ∈ [')', ',', ' ']) (rest : List Char) :
    read (line m r x ++ c :: rest) = some (x, c :: rest) := hread x hx hlen _ (stops_cons hc rest)

theorem Plain.line_ne_nil {e : Expr} (h : e.Plain) : line m r e ≠ [] := h.framed.opens.ne_nil

theorem lines_length {args : List Expr} (hargs : ∀ a ∈ args, a.Plain) :
    args.length ≤ (lines m r args).length ∧ ∀ a ∈ args, (line m r a).length ≤ (lines m r args).length := by
  induction args with
  | nil => simp
  | cons a args ih =>
      obtain ⟨ha, hargs⟩ := List.forall_mem_cons.mp hargs
      have hpos : 0 < (line m r a).length := List.length_pos_iff.mpr ha.line_ne_nil
      cases args with
      | nil => exact ⟨hpos, by simp⟩
      | cons b args =>
          obtain ⟨hcount, heach⟩ := ih hargs
          rw [lines_cons ha.framed (Plain.framed_each hargs (List.cons_ne_nil b args))]
          simp only [List.length_append, List.length_cons] at hcount ⊢
          refine ⟨by omega, List.forall_mem_cons.mpr ⟨by omega, fun c hc ↦ ?_⟩⟩
          have := heach c hc
          omega

/-- The arguments of a call are shorter than the call. -/
theorem lines_length_lt {n : String} (hn : nameFault? n = none) {args : List Expr} (hargs : ∀ a ∈ args, a.Plain) :
    (lines m r args).length < (line m r (.invoke n [] args)).length := by
  rw [line_invoke hn (Plain.framed_each hargs), List.length_append, List.length_append, List.length_cons]
  omega

theorem readMore_lines (rest : List Char) {args : List Expr} (hne : args ≠ []) (hargs : ∀ a ∈ args, a.Plain)
    (hread : ∀ a ∈ args, ∀ rest, Stops rest → read (line m r a ++ rest) = some (a, rest)) {k : Nat}
    (hk : args.length ≤ k) : readMore read k (lines m r args ++ ')' :: rest) = some (args, rest) := by
  induction args generalizing k with
  | nil => exact absurd rfl hne
  | cons a args ih =>
      obtain ⟨ha, hargs⟩ := List.forall_mem_cons.mp hargs
      obtain ⟨hreada, hread⟩ := List.forall_mem_cons.mp hread
      obtain ⟨k, rfl⟩ : ∃ k', k = k' + 1 := Nat.exists_eq_add_of_le' (Nat.le_trans (Nat.le_add_left 1 _) hk)
      cases args with
      | nil =>
          rw [lines_singleton, readMore, hreada _ (stops_cons (by decide) rest)]
          rfl
      | cons b args =>
          have hbe := ih (List.cons_ne_nil b args) hargs hread (Nat.le_of_succ_le_succ hk)
          rw [lines_cons ha.framed (Plain.framed_each hargs (List.cons_ne_nil b args)), List.append_assoc, readMore,
            List.cons_append, List.cons_append, hreada _ (stops_cons (by decide) _)]
          simp [hbe]

theorem readArgs_lines {n : Nat} (hread : Reads m r read n) {args : List Expr} (hargs : ∀ a ∈ args, a.Plain)
    (hlen : (lines m r args).length ≤ n) (rest : List Char) :
    readArgs read (lines m r args ++ ')' :: rest) = some (args, rest) := by
  obtain ⟨hcount, heach⟩ := lines_length (m := m) (r := r) hargs
  by_cases hne : args = []
  · rw [hne, lines_nil, List.nil_append, readArgs, behind_cons_self]
  · obtain ⟨c, hc, hopens⟩ := (Plain.framed_each (m := m) (r := r) hargs hne).opens.append (')' :: rest)
    have hhead : (lines m r args ++ ')' :: rest).head? ≠ some ')' := by
      intro h
      obtain rfl := Option.mem_unique hc h
      exact absurd hopens (by decide)
    rw [readArgs, behind_eq_none hhead]
    refine readMore_lines rest hne hargs (fun a ha ↦ hread a (hargs a ha) (Nat.le_trans (heach a ha) hlen)) ?_
    rw [List.length_append]
    omega

theorem readHead_invoke {n : Nat} (hread : Reads m r read n) {name : String} (hn : nameFault? name = none)
    {args : List Expr} (hargs : ∀ a ∈ args, a.Plain) (hlen : (lines m r args).length ≤ n) (rest : List Char) :
    readHead read (line m r (.invoke name [] args) ++ rest) = some (.invoke name [] args, rest) := by
  obtain ⟨c, cs, hcs⟩ := List.exists_cons_of_ne_nil (Framed.of_nameFault? hn).opens.ne_nil
  have hword : ∀ c ∈ name.toList, isWordPart c = true := fun _ hc ↦
    isWordPart_of_isIdentifierPart (isIdentifierPart_of_mem hn hc)
  obtain ⟨hc, hquote⟩ := ne_of_isWordPart (hword c (hcs ▸ List.mem_cons_self))
  have htext : name.toList ++ '(' :: lines m r args ++ [')'] ++ rest =
      name.toList ++ '(' :: (lines m r args ++ ')' :: rest) := by simp
  have hspan : (c :: (cs ++ '(' :: (lines m r args ++ ')' :: rest))).span isWordPart =
      (name.toList, '(' :: (lines m r args ++ ')' :: rest)) := by
    rw [← List.cons_append, ← hcs]
    exact span_append hword fun d hd ↦ Option.some.inj hd ▸ by decide
  rw [line_invoke hn (Plain.framed_each hargs), htext, hcs, List.cons_append, readHead, if_neg hc, if_neg hquote,
    hspan]
  simp only [behind_cons_self, String.ofList_toList, hn, readArgs_lines hread hargs hlen rest]
  rfl

/-! ## Field accesses and calls with a receiver -/

/-- Field accesses and calls that are put behind an expression, and how they are written. -/
inductive Suffixes (m : Model) (r : Resolution) : (Expr → Expr) → List Char → Prop
  | nil : Suffixes m r id []
  | field {f : Expr → Expr} {t : List Char} {n : String} (h : Suffixes m r f t) (hn : nameFault? n = none) :
    Suffixes m r (fun x ↦ .field (f x) n) (t ++ '.' :: n.toList)
  | call {f : Expr → Expr} {t : List Char} {n : String} {args : List Expr} (h : Suffixes m r f t)
    (hn : nameFault? n = none) (hargs : ∀ a ∈ args, a.Plain) :
    Suffixes m r (fun x ↦ .call (f x) n [] args) (t ++ '.' :: line m r (.invoke n [] args))

theorem readSuffixes_name (k : Nat) (x : Expr) {n : String} (hn : nameFault? n = none) {rest : List Char}
    (hrest : ∀ c ∈ rest.head?, isIdentifierPart c = false) :
    readSuffixes read (k + 1) x ('.' :: (n.toList ++ rest)) =
      match behind '(' rest with
      | none => readSuffixes read k (.field x n) rest
      | some rest => (readArgs read rest).bind fun (args, rest) ↦ readSuffixes read k (.call x n [] args) rest := by
  rw [readSuffixes, behind_cons_self]
  simp only [span_append (fun _ ↦ isIdentifierPart_of_mem hn) hrest, String.ofList_toList]
  rfl

theorem Suffixes.reads {n : Nat} (hread : Reads m r read n) {f : Expr → Expr} {t : List Char} (h : Suffixes m r f t)
    (hlen : t.length ≤ n) (x : Expr) {rest : List Char} (hrest : Continues rest) {k : Nat} (hk : t.length ≤ k) :
    ∃ k', k ≤ k' + t.length ∧ readSuffixes read k x (t ++ rest) = readSuffixes read k' (f x) rest := by
  induction h generalizing rest k with
  | nil => exact ⟨k, Nat.le_refl _, rfl⟩
  | @field f t name h hn ih =>
      rw [List.length_append, List.length_cons] at hlen hk ⊢
      obtain ⟨k', hk', heq⟩ := ih (Nat.le_trans (Nat.le_add_right _ _) hlen)
        (continues_cons (c := '.') (by decide) (name.toList ++ rest)) (Nat.le_trans (Nat.le_add_right _ _) hk)
      obtain ⟨k', rfl⟩ : ∃ l, k' = l + 1 := Nat.exists_eq_add_of_le' (by omega)
      refine ⟨k', by omega, ?_⟩
      rw [List.append_assoc, List.cons_append, heq, readSuffixes_name k' (f x) hn hrest.not_isIdentifierPart,
        hrest.behind_bracket]
  | @call f t name args h hn hargs ih =>
      rw [List.length_append, List.length_cons] at hlen hk ⊢
      obtain ⟨k', hk', heq⟩ := ih (Nat.le_trans (Nat.le_add_right _ _) hlen)
        (continues_cons (c := '.') (by decide) (line m r (.invoke name [] args) ++ rest))
        (Nat.le_trans (Nat.le_add_right _ _) hk)
      obtain ⟨k', rfl⟩ : ∃ l, k' = l + 1 := Nat.exists_eq_add_of_le' (by omega)
      refine ⟨k', by omega, ?_⟩
      have hinvoke := line_invoke (m := m) (r := r) hn (Plain.framed_each hargs)
      have hargslen := lines_length_lt (m := m) (r := r) hn hargs
      have htext : line m r (.invoke name [] args) ++ rest = name.toList ++ '(' :: (lines m r args ++ ')' :: rest) := by
        rw [hinvoke]
        simp
      rw [List.append_assoc, List.cons_append, heq, htext,
        readSuffixes_name k' (f x) hn bracket_not_isIdentifierPart, behind_cons_self]
      simp only [readArgs_lines hread hargs (by omega) rest, Option.bind_some]

theorem Suffixes.continues {f : Expr → Expr} {t rest : List Char} (h : Suffixes m r f t) (hrest : Continues rest) :
    Continues (t ++ rest) := by
  induction h generalizing rest with
  | nil => exact hrest
  | field h hn ih | call h hn hargs ih =>
      rw [List.append_assoc]
      exact ih (continues_cons (by decide) _)

/-- Where the expression stops, all that is put behind it has been read. -/
theorem Suffixes.readSuffixes_eq {n : Nat} (hread : Reads m r read n) {f : Expr → Expr} {t : List Char}
    (h : Suffixes m r f t) (hlen : t.length ≤ n) (x : Expr) {rest : List Char} (hrest : Stops rest) :
    readSuffixes read ((t ++ rest).length + 1) x (t ++ rest) = some (f x, rest) := by
  obtain ⟨k, hk, heq⟩ := h.reads hread hlen x hrest.continues (k := (t ++ rest).length + 1) (by simp; omega)
  rw [List.length_append] at hk
  obtain ⟨k, rfl⟩ : ∃ l, k = l + 1 := Nat.exists_eq_add_of_le' (by omega)
  rw [heq, readSuffixes, hrest.behind_point]

/-! ## Heads -/

/-- Whether an expression is a field access or a call with a receiver. -/
def isSuffixed : Expr → Bool
  | .field _ _ | .call _ _ _ _ => true
  | _ => false

/-- A plain expression is a head with field accesses and calls behind it. -/
theorem Plain.exists_head {e : Expr} (h : e.Plain) : ∃ (x : Expr) (f : Expr → Expr) (t : List Char),
    x.Plain ∧ x.isSuffixed = false ∧ Suffixes m r f t ∧ f x = e ∧ line m r e = line m r x ++ t := by
  have hself {e : Expr} (h : e.Plain) (hhead : e.isSuffixed = false) : ∃ (x : Expr) (f : Expr → Expr) (t : List Char),
      x.Plain ∧ x.isSuffixed = false ∧ Suffixes m r f t ∧ f x = e ∧ line m r e = line m r x ++ t :=
    ⟨e, id, [], h, hhead, .nil, rfl, by simp⟩
  induction h with
  | field hr hn ih =>
      obtain ⟨x, f, t, hx, hhead, hsuffixes, rfl, hline⟩ := ih
      exact ⟨x, _, _, hx, hhead, hsuffixes.field hn, rfl, by rw [line_field hr.framed hn, hline, List.append_assoc]⟩
  | call hr hn hargs ih =>
      obtain ⟨x, f, t, hx, hhead, hsuffixes, rfl, hline⟩ := ih
      exact ⟨x, _, _, hx, hhead, hsuffixes.call hn hargs, rfl, by
        rw [line_call hr.framed hn (framed_each hargs), hline, List.append_assoc]⟩
  | _ => exact hself (by constructor <;> assumption) rfl

theorem skipSpace_of_opens {xs : List Char} (h : Opens xs) : skipSpace xs = xs := by
  obtain ⟨c, hc, hopens⟩ := h
  rw [skipSpace, behind_eq_none, Option.getD_none]
  intro hspace
  obtain rfl := Option.mem_unique hc hspace
  exact absurd hopens (by decide)

theorem skipSpace_seam {xs : List Char} (h : Opens xs) (ys rest : List Char) :
    skipSpace (seam ys xs ++ (xs ++ rest)) = xs ++ rest := by
  rcases seam_cases ys xs with hseam | hseam
  · rw [hseam, List.nil_append, skipSpace_of_opens (h.append rest)]
  · rw [hseam, List.singleton_append, skipSpace, behind_cons_self, Option.getD_some]

/-- A sign in front of its operand. -/
theorem readUnary_line {n : Nat} (hread : Reads m r read n) {op : UnaryOp} (hop : op.isStep = false) {x : Expr}
    (hx : x.Plain) (hlen : (line m r x).length ≤ n) (rest : List Char) :
    readUnary read (op.symbol.toList ++ seam op.symbol.toList (line m r x) ++ line m r x ++ ')' :: rest) =
      some (.unary op x, rest) := by
  obtain ⟨c, hc, hsign⟩ : ∃ c, op.symbol.toList = [c] ∧ UnaryOp.ofSign? c = some op := by
    cases op <;> first | exact ⟨_, rfl, rfl⟩ | cases hop
  have hoperand := hread.operand hx hlen (c := ')') (by decide) rest
  rw [hc, List.append_assoc, List.append_assoc, List.singleton_append, readUnary]
  simp [hsign, skipSpace_seam hx.framed.opens, hoperand]

theorem readSymbol_append (symbol rest : List Char) (h : ' ' ∉ symbol) :
    readSymbol (' ' :: symbol ++ [' '] ++ rest) = some (symbol, rest) := by
  have hspan : (symbol ++ ' ' :: rest).span (· ≠ ' ') = (symbol, ' ' :: rest) :=
    span_append (fun c hc ↦ decide_eq_true (ne_of_mem_of_not_mem hc h)) (by simp)
  rw [readSymbol, List.append_assoc, List.cons_append, List.singleton_append, behind_cons_self]
  simp only [Option.bind_eq_bind, Option.bind_some, hspan, behind_cons_self]
  rfl

theorem readInfix_binary {n : Nat} (hread : Reads m r read n) (op : BinaryOp) {x y : Expr} (hx : x.Plain)
    (hy : y.Plain) (hxlen : (line m r x).length ≤ n) (hylen : (line m r y).length ≤ n) (rest : List Char) :
    readInfix read (line m r x ++ (' ' :: op.symbol.toList ++ [' ']) ++ line m r y ++ ')' :: rest) =
      some (.binary op x y, rest) := by
  have hsymbol := readSymbol_append op.symbol.toList (line m r y ++ ')' :: rest) (by cases op <;> decide)
  have hleft := hread.operand hx hxlen (c := ' ') (by decide)
    (op.symbol.toList ++ [' '] ++ (line m r y ++ ')' :: rest))
  have hright := hread.operand hy hylen (c := ')') (by decide) rest
  simp only [← List.cons_append] at hleft
  rw [List.append_assoc, List.append_assoc, readInfix, hleft]
  simp only [Option.bind_eq_bind, Option.bind_some, hsymbol, hright, String.ofList_toList, BinaryOp.ofSymbol?_symbol,
    behind_cons_self]
  rfl

theorem readInfix_conditional {n : Nat} (hread : Reads m r read n) {x y z : Expr} (hx : x.Plain) (hy : y.Plain)
    (hz : z.Plain) (hxlen : (line m r x).length ≤ n) (hylen : (line m r y).length ≤ n)
    (hzlen : (line m r z).length ≤ n) (rest : List Char) :
    readInfix read (line m r x ++ (' ' :: ['?'] ++ [' ']) ++
        (line m r y ++ (' ' :: [':'] ++ [' ']) ++ line m r z) ++ ')' :: rest) = some (.conditional x y z, rest) := by
  have hsymbol := readSymbol_append ['?'] (line m r y ++ (' ' :: [':'] ++ [' '] ++ (line m r z ++ ')' :: rest)))
    (by decide)
  have hsymbol' := readSymbol_append [':'] (line m r z ++ ')' :: rest) (by decide)
  have hfirst := hread.operand hx hxlen (c := ' ') (by decide)
    (['?'] ++ [' '] ++ (line m r y ++ (' ' :: [':'] ++ [' '] ++ (line m r z ++ ')' :: rest))))
  have hsecond := hread.operand hy hylen (c := ' ') (by decide) ([':'] ++ [' '] ++ (line m r z ++ ')' :: rest))
  have hthird := hread.operand hz hzlen (c := ')') (by decide) rest
  have hnone : BinaryOp.ofSymbol? (String.ofList ['?']) = none := by decide
  simp only [← List.cons_append] at hfirst hsecond
  simp only [List.append_assoc] at hfirst hsecond hsymbol hsymbol' ⊢
  rw [readInfix, hfirst]
  simp only [Option.bind_eq_bind, Option.bind_some, hsymbol, hsecond, hnone, hsymbol', hthird, behind_cons_self]
  rfl

theorem readCast_line {n : Nat} (hread : Reads m r read n) (p : Primitive) {x : Expr} (hx : x.Plain)
    (hlen : (line m r x).length ≤ n) (rest : List Char) :
    readCast read ('(' :: p.keyword.toList ++ ')' :: seam [')'] (line m r x) ++ line m r x ++ ')' :: rest) =
      some (.cast (.primitive p) x, rest) := by
  have hspan : (p.keyword.toList ++ ')' :: (seam [')'] (line m r x) ++ (line m r x ++ ')' :: rest))).span
      isIdentifierPart = (p.keyword.toList, ')' :: (seam [')'] (line m r x) ++ (line m r x ++ ')' :: rest))) :=
    span_append p.isIdentifierPart_of_mem_keyword (continues_cons (by decide) _).not_isIdentifierPart
  have hoperand := hread.operand hx hlen (c := ')') (by decide) rest
  rw [List.append_assoc, List.append_assoc, List.cons_append, List.cons_append, readCast, behind_cons_self]
  simp only [Option.bind_eq_bind, Option.bind_some, hspan, String.ofList_toList, Primitive.ofKeyword?_keyword,
    behind_cons_self, skipSpace_seam hx.framed.opens, hoperand]
  rfl

/-! ## What does not stand in brackets -/

/-- A primitive type is no expression. -/
theorem readExpr_keyword (n : Nat) (p : Primitive) (rest : List Char) :
    readExpr n (p.keyword.toList ++ ')' :: rest) = none := by
  have hword : ofWord? p.keyword.toList = none := by cases p <;> rfl
  cases n with
  | zero => rfl
  | succ n =>
      have hpart : ∀ c ∈ p.keyword.toList, isWordPart c = true := fun c hc ↦
        isWordPart_of_isIdentifierPart (p.isIdentifierPart_of_mem_keyword c hc)
      rw [readExpr, readHead_word (by cases p <;> decide) hpart (continues_cons (by decide) rest), hword]
      rfl

theorem ofSign?_of_isIdentifierPart {c : Char} (hc : isIdentifierPart c = true) : UnaryOp.ofSign? c = none := by
  unfold UnaryOp.ofSign?
  split <;> first | rfl | exact absurd hc (by decide)

theorem readUnary_eq_none {cs : List Char} (h : ∀ c ∈ cs.head?, UnaryOp.ofSign? c = none) :
    readUnary read cs = none := by
  cases cs with
  | nil => rfl
  | cons c cs => simp [readUnary, h c rfl]

/-- A primitive type in brackets is no expression. -/
theorem readExpr_bracketed (n : Nat) (p : Primitive) (rest : List Char) :
    readExpr n ('(' :: p.keyword.toList ++ ')' :: rest) = none := by
  have hhead : ∀ c ∈ (p.keyword.toList ++ ')' :: rest).head?, UnaryOp.ofSign? c = none ∧ c ≠ '(' := by
    cases p <;> (rintro c hc; obtain rfl := Option.some.inj hc; decide)
  have hbracket : (p.keyword.toList ++ ')' :: rest).head? ≠ some '(' := fun h ↦ (hhead _ h).2 rfl
  cases n with
  | zero => rfl
  | succ n =>
      have hinfix : readInfix (readExpr n) (p.keyword.toList ++ ')' :: rest) = none := by
        rw [readInfix, readExpr_keyword]
        rfl
      have hcast : readCast (readExpr n) (p.keyword.toList ++ ')' :: rest) = none := by
        rw [readCast, behind_eq_none hbracket]
        rfl
      rw [readExpr, List.cons_append, readHead, if_pos rfl, readBracket, readUnary_eq_none fun c hc ↦ (hhead c hc).1,
        hinfix, hcast]
      rfl

theorem ofSign?_head_name {n : String} (hn : nameFault? n = none) (rest : List Char) :
    ∀ c ∈ (n.toList ++ rest).head?, UnaryOp.ofSign? c = none := fun c hc ↦ by
  rw [List.head?_append_of_ne_nil _ (Framed.of_nameFault? hn).opens.ne_nil] at hc
  exact ofSign?_of_isIdentifierPart (isIdentifierPart_of_mem hn (List.mem_of_head? hc))

theorem intText_sign_cases (n : Int) (rest : List Char) :
    (∀ c ∈ ((intText n).toList ++ rest).head?, UnaryOp.ofSign? c = none) ∨
      ∃ k, (intText n).toList = '-' :: Nat.toDigits 10 k := by
  obtain ⟨k, h | h⟩ := toList_intText n
  · refine Or.inl fun c hc ↦ ?_
    rw [h, List.head?_append_of_ne_nil _ Nat.toDigits_ne_nil] at hc
    exact ofSign?_of_isIdentifierPart (identifierPart_of_isDigit (isDigit_of_mem_toDigits (List.mem_of_head? hc))).1
  · exact Or.inr ⟨k, h⟩

/-- A minus sign at the front of a plain expression belongs to a number. -/
theorem Plain.sign_cases {e : Expr} (h : e.Plain) : (∀ c ∈ (line m r e).head?, UnaryOp.ofSign? c = none) ∨
    ∃ (k : Nat) (suffix : List Char) (f : Expr → Expr) (t : List Char), (∀ c ∈ suffix, isWordPart c = true) ∧
      Suffixes m r f t ∧ line m r e = '-' :: Nat.toDigits 10 k ++ suffix ++ t := by
  obtain ⟨x, f, t, hx, hhead, ht, -, hline⟩ := h.exists_head (m := m) (r := r)
  have hfront : (line m r e).head? = (line m r x).head? := by
    rw [hline, List.head?_append_of_ne_nil _ hx.line_ne_nil]
  have hbracket (inner rest : List Char) : ∀ c ∈ ('(' :: inner ++ rest).head?, UnaryOp.ofSign? c = none := fun c hc ↦
    Option.some.inj hc ▸ rfl
  rw [hfront, hline]
  cases hx with
  | null => exact Or.inl (line_null (m := m) (r := r) ▸ fun c hc ↦ Option.some.inj hc ▸ rfl)
  | this => exact Or.inl (line_this (m := m) (r := r) ▸ fun c hc ↦ Option.some.inj hc ▸ rfl)
  | bool b =>
      rw [line_bool]
      cases b <;> exact Or.inl fun c hc ↦ Option.some.inj hc ▸ rfl
  | int n =>
      rw [line_int, ← List.append_nil (intText n.toInt).toList]
      exact (intText_sign_cases n.toInt []).imp_right fun ⟨k, hk⟩ ↦ ⟨k, [], f, t, by simp, ht, by rw [hk]⟩
  | long n =>
      rw [line_long]
      exact (intText_sign_cases n.toInt ['L']).imp_right fun ⟨k, hk⟩ ↦
        ⟨k, ['L'], f, t, List.all_eq_true.mp (by decide), ht, by rw [hk]⟩
  | string s => exact Or.inl (line_string s ▸ fun c hc ↦ Option.some.inj hc ▸ rfl)
  | @name n hn =>
      rw [line_name, ← List.append_nil n.toList]
      exact Or.inl (ofSign?_head_name hn [])
  | invoke hn hargs =>
      rw [line_invoke hn (framed_each hargs), List.append_assoc]
      exact Or.inl (ofSign?_head_name hn _)
  | unary hop hx => exact Or.inl (line_unary hop hx.framed ▸ hbracket _ _)
  | binary op hx hy => exact Or.inl (line_binary op hx.framed hy.framed ▸ hbracket _ _)
  | conditional hx hy hz => exact Or.inl (line_conditional hx.framed hy.framed hz.framed ▸ hbracket _ _)
  | cast p hx => exact Or.inl (line_cast p hx.framed ▸ hbracket _ _)
  | field | call => cases hhead

/-- Digits with field accesses and calls behind them are read up to where they stop, if they are read at all. -/
theorem rest_of_readExpr_digits {n : Nat} (hread : ∀ k ≤ n, Reads m r (readExpr k) k) {k : Nat} {suffix t : List Char}
    {f : Expr → Expr} (hsuffix : ∀ c ∈ suffix, isWordPart c = true) (ht : Suffixes m r f t)
    (hlen : (Nat.toDigits 10 k ++ suffix ++ t).length ≤ n) {rest : List Char} (hrest : Stops rest) :
    ∀ found ∈ readExpr n (Nat.toDigits 10 k ++ suffix ++ t ++ rest), found.2 = rest := by
  have hpos : 0 < (Nat.toDigits 10 k).length := List.length_pos_iff.mpr Nat.toDigits_ne_nil
  rw [List.length_append, List.length_append] at hlen
  obtain ⟨n, rfl⟩ : ∃ l, n = l + 1 := Nat.exists_eq_add_of_le' (by omega)
  have hcontinues : Continues (t ++ rest) := ht.continues hrest.continues
  have hword : ∀ c ∈ Nat.toDigits 10 k ++ suffix, isWordPart c = true :=
    List.forall_mem_append.mpr ⟨fun _ hc ↦ isWordPart_of_isDigit (isDigit_of_mem_toDigits hc), hsuffix⟩
  rw [readExpr, List.append_assoc _ t, readHead_word (by simp [Nat.toDigits_ne_nil]) hword hcontinues]
  cases hnumber : ofWord? (Nat.toDigits 10 k ++ suffix) with
  | none => simp
  | some x =>
      have hsuffixes := ht.readSuffixes_eq (hread n (Nat.le_succ n)) (by omega) x hrest
      simp only [Option.map_some, Option.bind_eq_bind, Option.bind_some, hsuffixes]
      rintro found hfound
      rw [← Option.some.inj hfound]

/-- In front of an operator, a sign belongs to the operand. -/
theorem readUnary_operand {n : Nat} (hread : ∀ k ≤ n, Reads m r (readExpr k) k) {x : Expr} (hx : x.Plain)
    (hlen : (line m r x).length ≤ n) {rest : List Char} (hrest : rest.head? = some ' ') :
    readUnary (readExpr n) (line m r x ++ rest) = none := by
  have hstops : Stops rest := fun c hc ↦ Option.some.inj (hrest.symm.trans hc) ▸ by decide
  have hopen : behind ')' rest = none := behind_eq_none (by simp [hrest])
  rcases hx.sign_cases (m := m) (r := r) with hsign | ⟨k, suffix, f, t, hsuffix, ht, hline⟩
  · refine readUnary_eq_none fun c hc ↦ hsign c ?_
    rwa [List.head?_append_of_ne_nil _ hx.line_ne_nil] at hc
  · have hskip : skipSpace (Nat.toDigits 10 k ++ suffix ++ t ++ rest) = Nat.toDigits 10 k ++ suffix ++ t ++ rest :=
      skipSpace_of_opens ((((framed_toDigits k).opens.append suffix).append t).append _)
    rw [hline] at hlen ⊢
    rw [List.cons_append, List.cons_append, List.length_cons] at hlen
    have hfound := rest_of_readExpr_digits hread hsuffix ht (Nat.le_of_succ_le hlen) hstops
    rw [readUnary]
    simp only [List.cons_append, List.head?_cons, List.tail_cons, hskip]
    cases hoperand : readExpr n (Nat.toDigits 10 k ++ suffix ++ t ++ rest) with
    | none => rfl
    | some found =>
        obtain ⟨y, rest'⟩ := found
        obtain rfl : rest' = rest := hfound _ hoperand
        simp [UnaryOp.ofSign?, hopen]

/-! ## Reading back -/

theorem readHead_line {n : Nat} (hread : ∀ k ≤ n, Reads m r (readExpr k) k) {x : Expr} (hx : x.Plain)
    (hhead : x.isSuffixed = false) (hlen : (line m r x).length ≤ n + 1) {rest : List Char} (hrest : Continues rest) :
    readHead (readExpr n) (line m r x ++ rest) = some (x, rest) := by
  have hreadn := hread n (Nat.le_refl n)
  have hbracket (inner : List Char) : readHead (readExpr n) ('(' :: inner ++ [')'] ++ rest) =
      readBracket (readExpr n) (inner ++ ')' :: rest) := by
    rw [List.append_assoc, List.cons_append, readHead, if_pos rfl]
    rfl
  cases hx with
  | null =>
      rw [line_null, readHead_word (by decide) (List.all_eq_true.mp (by decide)) hrest]
      rfl
  | this =>
      rw [line_this, readHead_word (by decide) (List.all_eq_true.mp (by decide)) hrest]
      rfl
  | bool b =>
      rw [line_bool]
      cases b <;> (rw [readHead_word (by decide) (List.all_eq_true.mp (by decide)) hrest]; rfl)
  | int n =>
      rw [line_int, readHead_word (framed_intText _).opens.ne_nil (fun _ ↦ isWordPart_of_mem_intText) hrest,
        ofWord?_int]
      rfl
  | long n =>
      rw [line_long, readHead_word (by simp)
        (List.forall_mem_append.mpr
          ⟨fun _ ↦ isWordPart_of_mem_intText, List.all_eq_true.mp (by decide)⟩) hrest, ofWord?_long]
      rfl
  | string s =>
      rw [line_string, List.append_assoc, List.cons_append, readHead, if_neg (by decide), if_pos rfl]
      exact readString_append s rest
  | @name n hn =>
      rw [line_name, readHead_word (Framed.of_nameFault? hn).opens.ne_nil
        (fun _ hc ↦ isWordPart_of_isIdentifierPart (isIdentifierPart_of_mem hn hc)) hrest, ofWord?_name hn]
      rfl
  | invoke hn hargs =>
      have hargslen := lines_length_lt (m := m) (r := r) hn hargs
      exact readHead_invoke hreadn hn hargs (by omega) rest
  | @unary op x hop hx =>
      rw [line_unary hop hx.framed] at hlen ⊢
      simp only [List.length_append, List.length_cons, List.length_nil] at hlen
      rw [hbracket, readBracket, readUnary_line hreadn hop hx (by omega) rest]
      rfl
  | binary op hx hy =>
      rw [line_binary op hx.framed hy.framed] at hlen ⊢
      simp only [List.length_append, List.length_cons, List.length_nil] at hlen
      rw [hbracket, readBracket, readInfix_binary hreadn op hx hy (by omega) (by omega) rest, List.append_assoc,
        List.append_assoc, readUnary_operand hread hx (by omega) rfl]
      rfl
  | conditional hx hy hz =>
      rw [line_conditional hx.framed hy.framed hz.framed] at hlen ⊢
      simp only [List.length_append, List.length_cons, List.length_nil] at hlen
      rw [hbracket, readBracket, readInfix_conditional hreadn hx hy hz (by omega) (by omega) (by omega) rest,
        List.append_assoc, List.append_assoc, readUnary_operand hread hx (by omega) rfl]
      rfl
  | @cast p x hx =>
      rw [line_cast p hx.framed] at hlen ⊢
      simp only [List.length_append, List.length_cons, List.length_nil] at hlen
      have hinfix : readInfix (readExpr n)
          ('(' :: p.keyword.toList ++ ')' :: seam [')'] (line m r x) ++ line m r x ++ ')' :: rest) = none := by
        have hleft : readExpr n ('(' :: p.keyword.toList ++
            (')' :: seam [')'] (line m r x) ++ (line m r x ++ ')' :: rest))) = none := readExpr_bracketed n p _
        rw [List.append_assoc, List.append_assoc, readInfix, hleft]
        rfl
      -- A cast is tried last: what stands in its inner brackets is no operand.
      rw [hbracket, readBracket, readCast_line hreadn p hx (by omega) rest, hinfix, readUnary_eq_none]
      · rfl
      · exact fun c hc ↦ Option.some.inj hc ▸ rfl
  | field | call => cases hhead

theorem reads_readExpr (n : Nat) : Reads m r (readExpr n) n := by
  -- Strong induction, since behind a sign that belongs to a number the head is read with less fuel than the operand.
  induction n using Nat.strongRecOn with
  | _ n ih =>
    intro e he hlen rest hrest
    obtain ⟨x, f, t, hx, hhead, ht, rfl, hline⟩ := he.exists_head (m := m) (r := r)
    have hpos : 0 < (line m r x).length := List.length_pos_iff.mpr hx.line_ne_nil
    rw [hline, List.length_append] at hlen
    obtain ⟨n, rfl⟩ : ∃ l, n = l + 1 := Nat.exists_eq_add_of_le' (by omega)
    have hread : ∀ k ≤ n, Reads m r (readExpr k) k := fun k hk ↦ ih k (Nat.lt_succ_of_le hk)
    rw [hline, List.append_assoc, readExpr, readHead_line hread hx hhead (by omega) (ht.continues hrest.continues)]
    exact ht.readSuffixes_eq (hread n (Nat.le_refl n)) (by omega) x hrest

/-- The text of a plain expression is read back. -/
theorem Plain.ofText?_eventText {e : Expr} (h : e.Plain) (layout : Layout) :
    ofText? (m.eventText layout r (e.events m.walk)) = some e := by
  have hread := reads_readExpr (m := m) (r := r) (line m r e).length e h (Nat.le_refl _) [] (by simp [Stops])
  rw [List.append_nil] at hread
  rw [ofText?, h.toList_eventText, ← String.length_toList, h.toList_eventText, hread]

/-- Plain expressions have the same text only when they are the same, whatever is around them. -/
theorem eventText_inj {e e' : Expr} (he : e.Plain) (he' : e'.Plain) {m m' : Model} {r r' : Resolution}
    {layout layout' : Layout} :
    m.eventText layout r (e.events m.walk) = m'.eventText layout' r' (e'.events m'.walk) ↔ e = e' := by
  constructor
  · intro h
    have hread := he.ofText?_eventText (m := m) (r := r) layout
    rw [h, he'.ofText?_eventText layout'] at hread
    exact (Option.some.inj hread).symm
  · rintro rfl
    rw [← String.toList_inj, he.toList_eventText, he.toList_eventText, he.line_eq]

/-- A negation of a negative number and a negation of a negation. -/
theorem eventText_inj_negative :
    (unary .neg (.field (.int (-5)) "x")).Plain ∧ (unary .neg (.unary .neg (.field (.int 5) "x"))).Plain ∧
      Model.initial.eventText ⟨.tab, .lf⟩ ⟨⟨0⟩, [], []⟩
          ((unary .neg (.field (.int (-5)) "x")).events Model.initial.walk) ≠
        Model.initial.eventText ⟨.spaces 2, .crlf⟩ ⟨⟨0⟩, [], []⟩
          ((unary .neg (.unary .neg (.field (.int 5) "x"))).events Model.initial.walk) := by
  have hname : nameFault? "x" = none := by decide
  have hnumber : (unary .neg (.field (.int (-5)) "x")).Plain := .unary rfl (.field (.int _) hname)
  have hnegation : (unary .neg (.unary .neg (.field (.int 5) "x"))).Plain :=
    .unary rfl (.unary rfl (.field (.int _) hname))
  exact ⟨hnumber, hnegation, (eventText_inj hnumber hnegation).not.mpr (by simp)⟩

/-- Signs of numbers, a cast, a string that holds brackets and quotes, and a call behind brackets. -/
example :
    Model.initial.eventText ⟨.tab, .lf⟩ ⟨⟨0⟩, [], []⟩ ((Expr.call
      (.binary .sub (.int (-1)) (.unary .neg (.long (-2)))) "f" []
      [.cast (.primitive .int) (.name "x"), .string "(\") + 1"]).events Model.initial.walk) =
      "(-1 - (- -2L)).f(((int) x), \"(\\\") + 1\")" := by
  decide +kernel

end JavaSource.Expr
