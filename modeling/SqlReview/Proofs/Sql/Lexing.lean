import SqlReview.Proofs.Sql.Writing

/-!
The lexemes of a writing are those of its words, numbers and signs, one blank lexeme for every blank
and one for every comma.
-/
namespace SqlReview.Sql

/-- A part of a text is cut into lexemes of its own, whatever its rest gives. -/
def Reads (part : Text) (ls : List Lexeme) (rest : Text) : Prop :=
  lexemes (part ++ rest) = (lexemes rest).map (ls ++ ·)

namespace Reads

variable {part more rest : Text} {ls ms : List Lexeme}

theorem nil (rest : Text) : Reads [] [] rest := by
  unfold Reads
  cases e : lexemes rest with
  | error => rw [List.nil_append, e]; rfl
  | ok ls => rw [List.nil_append, e]; rfl

theorem append (first : Reads part ls (more ++ rest)) (second : Reads more ms rest) :
    Reads (part ++ more) (ls ++ ms) rest := by
  unfold Reads at *
  rw [List.append_assoc, first, second]
  cases lexemes rest with
  | error => rfl
  | ok => exact congrArg Except.ok (List.append_assoc ..).symm

theorem of_scan {c : Char} {l : Lexeme} (h : scan c (part ++ rest) = .ok (l, rest)) :
    Reads (c :: part) [l] rest := by
  unfold Reads
  rw [List.cons_append, lexemes]
  split
  · next e =>
    rw [h] at e
    cases e
  · next e =>
    rw [h] at e
    cases e
    rfl

end Reads

/-- What may follow a word: nothing, a blank or a comma. -/
def Closes (rest : Text) : Prop := ∀ c ∈ rest.head?, c = ' ' ∨ c = '\t' ∨ c = '\n' ∨ c = ','

section Scan

variable {rest : Text}

theorem Closes.head?_ne (closes : Closes rest) {c : Char}
    (other : ¬ (c = ' ' ∨ c = '\t' ∨ c = '\n' ∨ c = ',')) : rest.head? ≠ some c :=
  fun h => other (closes c h)

theorem reads_blank (b : Blank) (rest : Text) : Reads [b.char] [.blank b.char] rest := by
  apply Reads.of_scan
  cases b <;> rfl

theorem reads_blankText (bs : List Blank) (rest : Text) :
    Reads (blankText bs) (bs.map fun b => .blank b.char) rest := by
  induction bs with
  | nil => exact Reads.nil rest
  | cons b bs ih => exact (reads_blank b _).append ih

theorem reads_mark (rest : Text) : Reads [','] [.symbol [',']] rest := by
  apply Reads.of_scan
  rfl

theorem isNameTail_of_isPlain {c : Char} (h : Text.isPlain c = true) : isNameTail c = true := by
  have small : c.toNat < 128 := by
    have := Text.isPlain_iff.1 h
    omega
  simp only [Text.isPlain, Bool.or_eq_true] at h
  simp only [isNameTail, Text.isAlphabetic, if_pos small, Bool.or_eq_true]
  rcases h with (h | h) | h <;> simp [h]

theorem scanWord_run {start s : Text} (plain : ∀ d ∈ s, Text.isPlain d = true)
    (after : ∀ d ∈ rest.head?, isNameTail d = false) :
    scanWord start (s ++ rest) = .ok (.word (start ++ s), rest) := by
  have tail : ∀ d ∈ s, isNameTail d = true := fun d hd => isNameTail_of_isPlain (plain d hd)
  unfold scanWord
  rw [Text.takeWhile_run tail after, Text.dropWhile_run tail after]

theorem scanLettered_word {c : Char} {s : Text}
    (h : ∀ d ∈ s.head?, d ≠ '\'' ∧ d ≠ '"' ∧ d ≠ '&') : scanLettered c s = scanWord [c] s := by
  have single : s.head? ≠ some '\'' := fun e => (h _ e).1 rfl
  have double : s.head? ≠ some '"' := fun e => (h _ e).2.1 rfl
  have coded : ¬ ['&', '\''].isPrefixOf s = true := by
    cases s with
    | nil => simp
    | cons d s =>
      have other := (h d rfl).2.2
      simp only [List.isPrefixOf, Bool.and_eq_true, beq_iff_eq, not_and]
      intro same
      exact absurd same.symm other
  simp only [scanLettered, single, double, coded, Bool.false_eq_true, and_false, if_false, ite_self]

theorem scan_underscore (s : Text) : scan '_' s = scanWord ['_'] s := by
  rfl

theorem scan_letter {c : Char} (letter : Text.isAsciiLetter c = true) (s : Text) :
    scan c s = scanLettered c s := by
  have range := Text.isAsciiLetter_iff.1 letter
  have solid : ¬ (c = ' ' ∨ c = '\t' ∨ c = '\n') := by
    rintro (rfl | rfl | rfl) <;> exact absurd letter (by decide)
  have other : c ≠ '\r' := by
    rintro rfl
    exact absurd letter (by decide)
  unfold scan
  rw [if_neg solid, if_neg other, if_pos letter]

/-- A word is read up to what may not be part of it; no quote after it makes it a string. -/
theorem scan_word {c : Char} {s : Text} (plain : ∀ d ∈ c :: s, Text.isPlain d = true)
    (start : Text.isAsciiDigit c = false)
    (after : ∀ d ∈ rest.head?, isNameTail d = false ∧ d ≠ '\'' ∧ d ≠ '"' ∧ d ≠ '&') :
    scan c (s ++ rest) = .ok (.word (c :: s), rest) := by
  obtain ⟨first, plain⟩ := List.forall_mem_cons.1 plain
  have word : scanWord [c] (s ++ rest) = _ := scanWord_run plain fun d hd => (after d hd).1
  have unquoted : ∀ d ∈ (s ++ rest).head?, d ≠ '\'' ∧ d ≠ '"' ∧ d ≠ '&' := by
    cases s with
    | nil => exact fun d hd => (after d hd).2
    | cons d' s =>
      intro d hd
      cases hd
      have tail := plain d' (List.mem_cons_self ..)
      refine ⟨?_, ?_, ?_⟩ <;> · rintro rfl; exact absurd tail (by decide)
  rw [Text.isPlain, start, Bool.or_false, Bool.or_eq_true, beq_iff_eq] at first
  rcases first with letter | rfl
  · rw [scan_letter letter, scanLettered_word unquoted]
    exact word
  · rw [scan_underscore]
    exact word

theorem scan_dot {c : Char} (h : Text.isAsciiDigit c = false) :
    scan '.' (c :: rest) = .ok (.symbol ['.'], c :: rest) := by
  have number : scan '.' (c :: rest) = scanNumber ('.' :: c :: rest) := rfl
  have nodigit : ¬ Text.isAsciiDigit c = true := by simp [h]
  have dot : ¬ Text.isAsciiDigit '.' = true := by decide
  rw [number, scanNumber, List.takeWhile_cons_of_neg dot, List.dropWhile_cons_of_neg dot]
  simp only [takeDot, List.takeWhile_cons_of_neg nodigit, List.dropWhile_cons_of_neg nodigit]
  rfl

theorem scan_minus {c : Char} (h : Text.isAsciiDigit c = true) :
    scan '-' (c :: rest) = .ok (.symbol ['-'], c :: rest) := by
  have dash : c ≠ '-' := by
    rintro rfl
    exact absurd h (by decide)
  have other : c ≠ '>' := by
    rintro rfl
    exact absurd h (by decide)
  have sign : scan '-' (c :: rest) =
      (scanComment? '-' (c :: rest)).getD (scanSign '-' (c :: rest)) := rfl
  have noComment : scanComment? '-' (c :: rest) = none := by
    simp [scanComment?, dash]
  rw [sign, noComment]
  simp [scanSign, longSigns, List.isPrefixOf, other.symm]

theorem scan_digit {c : Char} (digit : Text.isAsciiDigit c = true) (s : Text) :
    scan c s = scanNumber (c :: s) := by
  have range := Text.isAsciiDigit_iff.1 digit
  have solid : ¬ (c = ' ' ∨ c = '\t' ∨ c = '\n') := by
    rintro (rfl | rfl | rfl) <;> exact absurd digit (by decide)
  have other : c ≠ '\r' := by
    rintro rfl
    exact absurd digit (by decide)
  have noLetter : ¬ Text.isAsciiLetter c = true := by
    rw [Text.isAsciiLetter_iff]
    omega
  have noQuote : c ≠ '\'' := by
    rintro rfl
    exact absurd digit (by decide)
  have noName : ¬ (c = '"' ∨ c = '\x60') := by
    rintro (rfl | rfl) <;> exact absurd digit (by decide)
  unfold scan
  rw [if_neg solid, if_neg other, if_neg noLetter, if_neg noQuote, if_neg noName,
    if_pos (.inl digit)]

theorem scanNumber_digits {ds : Text} (filled : ds ≠ [])
    (digits : ∀ d ∈ ds, Text.isAsciiDigit d = true) (closes : Closes rest) :
    scanNumber (ds ++ rest) = .ok (.number ds, rest) := by
  have after : ∀ d ∈ rest.head?, Text.isAsciiDigit d = false := by
    intro d hd
    rcases closes d hd with rfl | rfl | rfl | rfl <;> decide
  have whole := Text.takeWhile_run digits after
  have beyond := Text.dropWhile_run digits after
  -- what closes a number starts no other part of one
  have noHex : rest.head? ≠ some 'x' := closes.head?_ne (by decide)
  have noDot : takeDot rest = ([], rest) := by
    unfold takeDot
    split
    · exact absurd rfl (closes.head?_ne (by decide))
    · rfl
  have noFraction : rest.takeWhile Text.isAsciiDigit = [] ∧
      rest.dropWhile Text.isAsciiDigit = rest := by
    cases rest with
    | nil => exact ⟨rfl, rfl⟩
    | cons c s =>
      have nodigit : ¬ Text.isAsciiDigit c = true := by simp [after c rfl]
      exact ⟨List.takeWhile_cons_of_neg nodigit, List.dropWhile_cons_of_neg nodigit⟩
  have noExponent : takeExponent rest = ([], rest) := by
    cases rest with
    | nil => rfl
    | cons c s =>
      have noMark : ¬ (c = 'e' ∨ c = 'E') := by
        rintro (rfl | rfl)
        · exact closes.head?_ne (by decide) rfl
        · exact closes.head?_ne (by decide) rfl
      rw [takeExponent, if_neg noMark]
  have noLong : takeLong rest = ([], rest) := by
    unfold takeLong
    split
    · exact absurd rfl (closes.head?_ne (by decide))
    · rfl
  unfold scanNumber
  rw [whole, beyond]
  simp only [noHex, noDot, noFraction, noExponent, noLong, filled, and_false, false_and, if_false,
    List.append_nil]

theorem reads_comparator (c : Comparator) (closes : Closes rest) :
    Reads c.text [.symbol (if c = .notEqual then ['<', '>'] else c.text)] rest := by
  cases c
  all_goals
    apply Reads.of_scan
    cases rest with
    | nil => rfl
    | cons d s => rcases closes d rfl with rfl | rfl | rfl | rfl <;> rfl

end Scan

def Break.lexemes : Break → List Lexeme
  | .gap g => (g.first :: g.others).map fun b => .blank b.char
  | .comma c =>
    (c.before.map fun b => .blank b.char) ++
      .symbol [','] :: c.after.map fun b => .blank b.char

/-- Of the two ways to write that values differ only one is kept. -/
def Solid.lexemes : Solid → List Lexeme
  | .keyword _ k => [.word k.text]
  | .name n => [.word n.text]
  | .qualified table column => [.word table.text, .symbol ['.'], .word column.text]
  | .integer negative d => (if negative then [.symbol ['-']] else []) ++ [.number d.text]
  | .sign c => [.symbol (if c = .notEqual then ['<', '>'] else c.text)]

def Writing.lexemes (t : Writing) : List Lexeme := t.flatMap fun x => x.1.lexemes ++ x.2.lexemes

section Writing

variable {rest : Text}

theorem Closes.after (closes : Closes rest) :
    ∀ d ∈ rest.head?, isNameTail d = false ∧ d ≠ '\'' ∧ d ≠ '"' ∧ d ≠ '&' := by
  intro d hd
  rcases closes d hd with rfl | rfl | rfl | rfl <;> decide

theorem Break.closes (b : Break) (s : Text) : Closes (b.text ++ s) := by
  have blank (b : Blank) : b.char = ' ' ∨ b.char = '\t' ∨ b.char = '\n' ∨ b.char = ',' := by
    cases b <;> decide
  intro d hd
  cases b with
  | gap g =>
    cases hd
    exact blank g.first
  | comma c =>
    obtain ⟨before, after⟩ := c
    cases before with
    | nil =>
      cases hd
      decide
    | cons b before =>
      cases hd
      exact blank b

theorem Break.reads (b : Break) (rest : Text) : Reads b.text b.lexemes rest := by
  cases b with
  | gap g => exact reads_blankText (g.first :: g.others) rest
  | comma c =>
    apply (reads_blankText c.before _).append
    exact (reads_mark _).append (reads_blankText c.after rest)

theorem reads_word {s : Text} (filled : s ≠ []) (plain : ∀ c ∈ s, Text.isPlain c = true)
    (start : ∀ c ∈ s.head?, Text.isAsciiDigit c = false)
    (after : ∀ d ∈ rest.head?, isNameTail d = false ∧ d ≠ '\'' ∧ d ≠ '"' ∧ d ≠ '&') :
    Reads s [.word s] rest := by
  cases s with
  | nil => exact absurd rfl filled
  | cons c s => exact Reads.of_scan (scan_word plain (start c rfl) after)

theorem Name.reads (n : Name)
    (after : ∀ d ∈ rest.head?, isNameTail d = false ∧ d ≠ '\'' ∧ d ≠ '"' ∧ d ≠ '&') :
    Reads n.text [.word n.text] rest :=
  reads_word n.filled n.plain n.start after

theorem Digits.reads (d : Digits) (closes : Closes rest) :
    Reads d.text [.number d.text] rest := by
  have number := scanNumber_digits d.filled d.digits closes
  have digits := d.digits
  cases e : d.text with
  | nil => exact absurd e d.filled
  | cons c s =>
    rw [e] at number digits
    apply Reads.of_scan
    rw [scan_digit (digits c (List.mem_cons_self ..))]
    exact number

theorem Solid.reads (s : Solid) (closes : Closes rest) : Reads s.text s.lexemes rest := by
  cases s with
  | keyword known k =>
    apply reads_word (k.filled known) (k.plain known) _ closes.after
    intro c hc
    have letter := Text.isAsciiLetter_iff.1 (k.letters known c (List.mem_of_mem_head? hc))
    rw [← Bool.not_eq_true, Text.isAsciiDigit_iff]
    omega
  | name n => exact n.reads closes.after
  | qualified table column =>
    have dot : Reads ['.'] [.symbol ['.']] (column.text ++ rest) := by
      apply Reads.of_scan
      have start := column.start
      cases e : column.text with
      | nil => exact absurd e column.filled
      | cons c t => exact scan_dot (start c (e ▸ rfl))
    apply Reads.append (table.reads _) (dot.append (column.reads closes.after))
    intro d hd
    cases hd
    decide
  | integer negative d =>
    cases negative with
    | false => exact d.reads closes
    | true =>
      have minus : Reads ['-'] [.symbol ['-']] (d.text ++ rest) := by
        apply Reads.of_scan
        have digits := d.digits
        cases e : d.text with
        | nil => exact absurd e d.filled
        | cons c t => exact scan_minus (digits c (e ▸ List.mem_cons_self ..))
      exact minus.append (d.reads closes)
  | sign c => exact reads_comparator c closes

theorem Writing.closes (t : Writing) (closes : Closes rest) : Closes (t.text ++ rest) := by
  cases t with
  | nil => exact closes
  | cons x t =>
    rw [text_cons, List.append_assoc]
    exact x.1.closes _

theorem Writing.lexemes_cons (x : Break × Solid) (t : Writing) :
    lexemes (x :: t) = x.1.lexemes ++ (x.2.lexemes ++ lexemes t) := by
  unfold lexemes
  rw [List.flatMap_cons, List.append_assoc]

theorem Writing.lexemes_append (t u : Writing) : lexemes (t ++ u) = lexemes t ++ lexemes u :=
  List.flatMap_append

theorem Writing.reads (t : Writing) (closes : Closes rest) : Reads t.text t.lexemes rest := by
  induction t with
  | nil => exact Reads.nil rest
  | cons x t ih =>
    have first := (x.1.reads _).append ((x.2.reads (Writing.closes t closes)).append ih)
    rw [text_cons, lexemes_cons]
    exact first

end Writing

end SqlReview.Sql
