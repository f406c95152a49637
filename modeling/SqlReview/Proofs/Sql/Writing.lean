import SqlReview.Proofs.Text.Pattern
import SqlReview.Sql.Token

/-!
Queries as they are written: words, numbers and signs, with blanks or a comma between any two. What
is written holds together by itself, so any such list makes a text of the same words again.
-/
namespace SqlReview.Sql

open Pattern (Starts Clear charBefore inWord)

inductive Blank where
  | space
  | tab
  | newline
deriving Repr, DecidableEq

def Blank.char : Blank → Char
  | .space => ' '
  | .tab => '\t'
  | .newline => '\n'

def blankText (blanks : List Blank) : Text := blanks.map Blank.char

structure Gap where
  first : Blank
  others : List Blank
deriving Repr

def Gap.text (g : Gap) : Text := blankText (g.first :: g.others)

structure Comma where
  before : List Blank
  after : List Blank
deriving Repr

def Comma.text (c : Comma) : Text := blankText c.before ++ ',' :: blankText c.after

/-- What stands between two words. -/
inductive Break where
  | gap (g : Gap)
  | comma (c : Comma)
deriving Repr

def Break.text : Break → Text
  | .gap g => g.text
  | .comma c => c.text

/-- A keyword in any mixture of capitals and small letters. -/
structure Keyword (w : Text) where
  text : Text
  spelled : Text.eqIgnoreCase text w = true

/-- A word that is no keyword. -/
structure Name where
  text : Text
  filled : text ≠ []
  plain : ∀ c ∈ text, Text.isPlain c = true
  start : ∀ c ∈ text.head?, Text.isAsciiDigit c = false
  free : isReserved text = false

structure Digits where
  text : Text
  filled : text ≠ []
  digits : ∀ c ∈ text, Text.isAsciiDigit c = true

inductive Comparator where
  | equal
  | unequal
  | notEqual
  | less
  | lessEqual
  | greater
  | greaterEqual
deriving Repr, DecidableEq

def Comparator.text : Comparator → Text
  | .equal => ['=']
  | .unequal => ['<', '>']
  | .notEqual => ['!', '=']
  | .less => ['<']
  | .lessEqual => ['<', '=']
  | .greater => ['>']
  | .greaterEqual => ['>', '=']

/-- What signs are made of, with the marks inside of names and numbers. -/
def signs : Text := ['.', '-', '=', '<', '>', '!']

/-- What stands between two breaks. -/
inductive Solid where
  | keyword {w : Text} (known : w ∈ reservedWords) (k : Keyword w)
  | name (n : Name)
  | qualified (table column : Name)
  | integer (negative : Bool) (d : Digits)
  | sign (c : Comparator)

def Solid.text : Solid → Text
  | .keyword _ k => k.text
  | .name n => n.text
  | .qualified table column => table.text ++ '.' :: column.text
  | .integer negative d => (if negative then ['-'] else []) ++ d.text
  | .sign c => c.text

abbrev Writing := List (Break × Solid)

def Writing.text (t : Writing) : Text := t.flatMap fun x => x.1.text ++ x.2.text

section Blank

theorem isBlank_blankText (bs : List Blank) : ∀ c ∈ blankText bs, Text.isBlank c = true := by
  intro c hc
  obtain ⟨b, _, rfl⟩ := List.mem_map.1 hc
  cases b <;> rfl

theorem Gap.isBlank (g : Gap) : ∀ c ∈ g.text, Text.isBlank c = true :=
  isBlank_blankText (g.first :: g.others)

theorem Gap.text_ne_nil (g : Gap) : g.text ≠ [] := List.cons_ne_nil _ _

theorem Break.not_isWord (b : Break) : ∀ c ∈ b.text, Text.isWord c = false := by
  have blank (bs : List Blank) : ∀ c ∈ blankText bs, Text.isWord c = false := fun c hc =>
    Text.not_isWord_of_isBlank (isBlank_blankText bs c hc)
  cases b with
  | gap g => exact blank (g.first :: g.others)
  | comma c =>
    intro d hd
    rcases List.mem_append.1 hd with hd | hd
    · exact blank c.before d hd
    · rcases List.mem_cons.1 hd with rfl | hd
      · rfl
      · exact blank c.after d hd

theorem Break.text_ne_nil (b : Break) : b.text ≠ [] := by
  cases b with
  | gap g => exact g.text_ne_nil
  | comma c =>
    intro empty
    exact List.cons_ne_nil _ _ (List.append_eq_nil_iff.1 empty).2

end Blank

section Keyword

variable {w : Text}

theorem capitals_of_reserved : ∀ w ∈ reservedWords, Pattern.Capitals w := by
  have all : ∀ w ∈ reservedWords, w ≠ [] ∧ w.all Text.isCapital = true := by decide +kernel
  intro w hw
  exact ⟨(all w hw).1, List.all_eq_true.1 (all w hw).2⟩

theorem starts_keyword {w : Text} (known : w ∈ reservedWords) : Starts (Pattern.word w) [w] :=
  Pattern.starts_word (capitals_of_reserved w known)

theorem starts_keywords {w : Text} (known : w ∈ reservedWords) (second : Text) :
    Starts (Pattern.phrase w second) [w] := Pattern.starts_phrase (capitals_of_reserved w known)

theorem lower_inj_reserved : ∀ w ∈ reservedWords, ∀ w' ∈ reservedWords,
    Text.lower w = Text.lower w' → w = w' := by
  -- to look at all pairs of words takes the kernel seconds
  have back : ∀ w ∈ reservedWords, Text.upper (Text.lower w) = w := by decide +kernel
  intro w hw w' hw' same
  calc w = Text.upper (Text.lower w) := (back w hw).symm
    _ = Text.upper (Text.lower w') := congrArg Text.upper same
    _ = w' := back w' hw'

theorem isAsciiLetter_of_eqIgnoreCase {s : Text} (capital : ∀ c ∈ w, Text.isCapital c = true)
    (h : Text.eqIgnoreCase s w = true) : ∀ c ∈ s, Text.isAsciiLetter c = true := by
  unfold Text.eqIgnoreCase Text.lower at h
  rw [beq_iff_eq] at h
  intro c hc
  have lowered : c.toLower ∈ w.map Char.toLower := h ▸ List.mem_map_of_mem hc
  obtain ⟨letter, hl, same⟩ := List.mem_map.1 lowered
  have letter := Text.isCapital_iff.1 (capital letter hl)
  rw [← Char.toNat_inj, Text.toNat_toLower, Text.toNat_toLower, if_pos letter] at same
  rw [Text.isAsciiLetter_iff]
  split at same <;> omega

namespace Keyword

theorem eqIgnoreCase (k : Keyword w) (w' : Text) :
    Text.eqIgnoreCase k.text w' = Text.eqIgnoreCase w w' := by
  have spelled := k.spelled
  unfold Text.eqIgnoreCase at spelled ⊢
  rw [beq_iff_eq.1 spelled]

theorem letters (known : w ∈ reservedWords) (k : Keyword w) :
    ∀ c ∈ k.text, Text.isAsciiLetter c = true :=
  isAsciiLetter_of_eqIgnoreCase (capitals_of_reserved w known).2 k.spelled

theorem plain (known : w ∈ reservedWords) (k : Keyword w) :
    ∀ c ∈ k.text, Text.isPlain c = true := by
  intro c hc
  rw [Text.isPlain, k.letters known c hc]
  rfl

theorem filled (known : w ∈ reservedWords) (k : Keyword w) : k.text ≠ [] := by
  intro empty
  have spelled := k.spelled
  unfold Text.eqIgnoreCase Text.lower at spelled
  rw [empty, beq_iff_eq, List.map_nil, eq_comm, List.map_eq_nil_iff] at spelled
  exact (capitals_of_reserved w known).1 spelled

theorem isSpelling (known : w ∈ reservedWords) (k : Keyword w) :
    Pattern.isSpelling w k.text = true := by
  rw [Pattern.isSpelling_of_plain (capitals_of_reserved w known).2 (k.plain known)]
  exact k.spelled

theorem not_isSpelling (known : w ∈ reservedWords) (k : Keyword w) {w' : Text}
    (known' : w' ∈ reservedWords) (other : w ≠ w') : Pattern.isSpelling w' k.text = false := by
  rw [Pattern.isSpelling_of_plain (capitals_of_reserved w' known').2 (k.plain known),
    k.eqIgnoreCase, ← Bool.not_eq_true]
  intro same
  exact other (lower_inj_reserved w known w' known' (beq_iff_eq.1 same))

end Keyword

theorem Name.not_isSpelling (n : Name) {w' : Text} (known : w' ∈ reservedWords) :
    Pattern.isSpelling w' n.text = false := by
  rw [Pattern.isSpelling_of_plain (capitals_of_reserved w' known).2 n.plain,
    Text.eqIgnoreCase_comm, ← Bool.not_eq_true]
  exact List.any_eq_false.1 n.free w' known

theorem Digits.plain (d : Digits) : ∀ c ∈ d.text, Text.isPlain c = true := by
  intro c hc
  rw [Text.isPlain, d.digits c hc, Bool.or_true]
  rfl

theorem Digits.not_isSpelling (d : Digits) {w' : Text} (known : w' ∈ reservedWords) :
    Pattern.isSpelling w' d.text = false := by
  have capital := (capitals_of_reserved w' known).2
  rw [Pattern.isSpelling_of_plain capital d.plain, ← Bool.not_eq_true]
  intro same
  obtain ⟨c, hc⟩ := List.exists_mem_of_ne_nil _ d.filled
  have letter := Text.isAsciiLetter_iff.1 (isAsciiLetter_of_eqIgnoreCase capital same c hc)
  have digit := Text.isAsciiDigit_iff.1 (d.digits c hc)
  omega

end Keyword

theorem Comparator.mem_signs (c : Comparator) : c.text ⊆ signs := by
  cases c <;> simp [text, signs]

theorem apart_of_sign {c : Char} (h : c ∈ signs) :
    Text.isWord c = false ∧ Text.isBlank c = false := by
  have all : signs.all (fun c => !Text.isWord c && !Text.isBlank c) = true := by decide
  have apart := List.all_eq_true.1 all c h
  rw [Bool.and_eq_true, Bool.not_eq_true', Bool.not_eq_true'] at apart
  exact apart

section Clearance

variable {p : Pattern} {ws : List Text} {before : Option Char} {rest : Text}

def Solid.Avoids (ws : List Text) : Solid → Prop
  | @Solid.keyword w _ _ => w ∉ ws
  | _ => True

theorem isWord_of_plain {s : Text} (h : ∀ c ∈ s, Text.isPlain c = true) :
    ∀ c ∈ s, Text.isWord c = true := fun c hc => Text.isWord_of_isPlain (h c hc)

theorem Name.clear (n : Name) (starts : Starts p ws) (known : ws ⊆ reservedWords)
    (after : inWord rest.head? = false) : Clear p before n.text rest :=
  starts.clear_of_run (isWord_of_plain n.plain) (fun _ hw => n.not_isSpelling (known hw)) after

theorem Solid.clear {s : Solid} (starts : Starts p ws) (known : ws ⊆ reservedWords)
    (avoids : s.Avoids ws) (after : inWord rest.head? = false) : Clear p before s.text rest := by
  cases s with
  | @keyword w knownw k =>
    apply starts.clear_of_run (isWord_of_plain (k.plain knownw)) _ after
    intro w' hw'
    apply k.not_isSpelling knownw (known hw')
    rintro rfl
    exact avoids hw'
  | name n => exact n.clear starts known after
  | qualified table column =>
    -- the dot keeps the two names apart, so each is a run of its own
    have mark : Text.isWord '.' = false := by decide
    have dot : Clear p (charBefore before table.text) ('.' :: column.text) rest :=
      ⟨starts.eq_none_of_mark mark, column.clear starts known after⟩
    have first : Clear p before table.text ('.' :: column.text ++ rest) :=
      table.clear starts known mark
    exact first.append dot
  | integer negative d =>
    have digits {before : Option Char} : Clear p before d.text rest :=
      starts.clear_of_run (isWord_of_plain d.plain) (fun _ hw => d.not_isSpelling (known hw)) after
    cases negative with
    | false => exact digits
    | true => exact ⟨starts.eq_none_of_mark (by decide), digits⟩
  | sign c =>
    exact starts.clear_of_marks fun d hd => (apart_of_sign (c.mem_signs hd)).1

theorem Break.clear (b : Break) (starts : Starts p ws) : Clear p before b.text rest :=
  starts.clear_of_marks b.not_isWord

theorem Gap.clear (g : Gap) (starts : Starts p ws) : Clear p before g.text rest :=
  (Break.gap g).clear starts

theorem Gap.inWord_charBefore (g : Gap) (s : Text) :
    inWord (charBefore before (s ++ g.text)) = false := by
  obtain ⟨t, c, ht⟩ := (List.eq_nil_or_concat g.text).resolve_left g.text_ne_nil
  rw [List.concat_eq_append] at ht
  have blank := g.isBlank c (ht ▸ List.mem_append_right t (List.mem_singleton_self c))
  rw [ht, charBefore, ← List.append_assoc, List.getLast?_concat]
  exact Text.not_isWord_of_isBlank blank

theorem Break.inWord_head (b : Break) (s : Text) : inWord (b.text ++ s).head? = false := by
  cases e : b.text with
  | nil => exact absurd e b.text_ne_nil
  | cons c t => exact b.not_isWord c (e ▸ List.mem_cons_self ..)

theorem Gap.inWord_head (g : Gap) (s : Text) : inWord (g.text ++ s).head? = false :=
  (Break.gap g).inWord_head s

namespace Keyword

variable {w w' : Text}

theorem word_covers (known : w ∈ reservedWords) (k : Keyword w) (alone : inWord before = false)
    (after : inWord rest.head? = false) :
    Pattern.word w before (k.text ++ rest) = some k.text.length :=
  Pattern.word_covers alone (k.isSpelling known) after

theorem phrase_covers (known : w ∈ reservedWords) (known' : w' ∈ reservedWords) (k : Keyword w)
    {gap : Text} (filled : gap ≠ []) (blank : ∀ c ∈ gap, Text.isBlank c = true) (k' : Keyword w')
    (alone : inWord before = false) (after : inWord rest.head? = false) :
    Pattern.phrase w w' before (k.text ++ (gap ++ (k'.text ++ rest))) =
      some (k.text ++ (gap ++ k'.text)).length := by
  have solid : ∀ c ∈ k'.text.head?, Text.isBlank c = false := by
    intro c hc
    exact Text.not_isBlank_of_isPlain (k'.plain known' c (List.mem_of_mem_head? hc))
  rw [Pattern.phrase_covers alone (k.isSpelling known) filled blank (k'.isSpelling known') solid
    (k'.filled known') after]
  rw [List.length_append, List.length_append, Nat.add_assoc]

end Keyword

namespace Writing

variable {t : Writing}

def Avoids (ws : List Text) (t : Writing) : Prop := ∀ x ∈ t, x.2.Avoids ws

theorem avoids_nil : Avoids ws [] := List.forall_mem_nil _

theorem avoids_cons {x : Break × Solid} : Avoids ws (x :: t) ↔ x.2.Avoids ws ∧ Avoids ws t :=
  List.forall_mem_cons

theorem avoids_append {u : Writing} : Avoids ws (t ++ u) ↔ Avoids ws t ∧ Avoids ws u :=
  List.forall_mem_append

theorem avoids_flatMap {α : Type} {write : α → Writing} (h : ∀ a, Avoids ws (write a))
    (as : List α) : Avoids ws (as.flatMap write) := by
  intro x hx
  obtain ⟨a, _, hx⟩ := List.mem_flatMap.1 hx
  exact h a x hx

theorem text_cons (x : Break × Solid) (t : Writing) :
    text (x :: t) = x.1.text ++ (x.2.text ++ text t) := by
  unfold text
  rw [List.flatMap_cons, List.append_assoc]

theorem text_append (t u : Writing) : text (t ++ u) = text t ++ text u := List.flatMap_append

theorem inWord_head (t : Writing) (after : inWord rest.head? = false) :
    inWord (t.text ++ rest).head? = false := by
  cases t with
  | nil => exact after
  | cons x t =>
    rw [text_cons, List.append_assoc]
    exact x.1.inWord_head _

theorem inWord_head_text (t : Writing) : inWord t.text.head? = false := by
  have after : inWord (t.text ++ []).head? = false := inWord_head t rfl
  rw [List.append_nil] at after
  exact after

/-- A writing with none of the words that a pattern starts with is passed over. -/
theorem clear (starts : Starts p ws) (known : ws ⊆ reservedWords) (avoids : t.Avoids ws)
    (after : inWord rest.head? = false) : Clear p before t.text rest := by
  induction t generalizing before with
  | nil => trivial
  | cons x t ih =>
    obtain ⟨first, avoids⟩ := avoids_cons.1 avoids
    rw [text_cons]
    apply (x.1.clear starts).append
    exact (Solid.clear starts known first (inWord_head t after)).append (ih avoids)

end Writing

end Clearance

section Characters

theorem Solid.mem_text (s : Solid) : ∀ c ∈ s.text,
    Text.isPlain c = true ∨ c ∈ signs := by
  intro c hc
  cases s with
  | keyword known k => exact .inl (k.plain known c hc)
  | name n => exact .inl (n.plain c hc)
  | qualified table column =>
    rcases List.mem_append.1 hc with hc | hc
    · exact .inl (table.plain c hc)
    · rcases List.mem_cons.1 hc with rfl | hc
      · exact .inr (by decide)
      · exact .inl (column.plain c hc)
  | integer negative d =>
    rcases List.mem_append.1 hc with hc | hc
    · cases negative with
      | false => cases hc
      | true =>
        obtain rfl := List.mem_singleton.1 hc
        exact .inr (by decide)
    · exact .inl (d.plain c hc)
  | sign comparator =>
    exact .inr (comparator.mem_signs hc)

theorem Solid.text_ne_nil (s : Solid) : s.text ≠ [] := by
  cases s with
  | keyword known k => exact k.filled known
  | name n => exact n.filled
  | qualified table column => exact fun h => table.filled (List.append_eq_nil_iff.1 h).1
  | integer negative d => exact fun h => d.filled (List.append_eq_nil_iff.1 h).2
  | sign comparator => cases comparator <;> exact List.cons_ne_nil _ _

theorem Solid.not_isBlank (s : Solid) : ∀ c ∈ s.text, Text.isBlank c = false := by
  intro c hc
  rcases s.mem_text c hc with plain | sign
  · exact Text.not_isBlank_of_isPlain plain
  · exact (apart_of_sign sign).2

/-- A mark that is neither plain nor a sign, such as a comma or a parenthesis, is nowhere. -/
theorem Solid.not_mem_text (s : Solid) {mark : Char} (plain : Text.isPlain mark = false)
    (other : mark ∉ signs) : mark ∉ s.text := by
  intro h
  rcases s.mem_text mark h with h | h
  · rw [plain] at h
    cases h
  · exact other h

theorem not_mem_blankText {mark : Char} (solid : Text.isBlank mark = false) (bs : List Blank) :
    mark ∉ blankText bs := Text.not_mem_of_blank (isBlank_blankText bs) solid

end Characters

namespace Writing

variable {t : Writing}

/-- No comma stands in the writing. -/
def Gapped (t : Writing) : Prop := ∀ x ∈ t, ∃ g, x.1 = .gap g

theorem not_mem_text {mark : Char} (apart : mark ≠ ',' ∨ Gapped t)
    (plain : Text.isPlain mark = false) (other : mark ∉ signs)
    (solid : Text.isBlank mark = false) : mark ∉ text t := by
  intro h
  obtain ⟨⟨b, s⟩, hx, h⟩ := List.mem_flatMap.1 h
  rcases List.mem_append.1 h with h | h
  · cases b with
    | gap g => exact not_mem_blankText solid _ h
    | comma c =>
      rcases apart with apart | gapped
      · rcases List.mem_append.1 h with h | h
        · exact not_mem_blankText solid _ h
        · rcases List.mem_cons.1 h with h | h
          · exact apart h
          · exact not_mem_blankText solid _ h
      · obtain ⟨g, hg⟩ := gapped _ hx
        cases hg
  · exact s.not_mem_text plain other h

theorem words_text (gapped : Gapped t) (s : Solid) :
    Text.words (s.text ++ text t) = s.text :: t.map fun x => x.2.text := by
  induction t generalizing s with
  | nil =>
    change Text.words (s.text ++ []) = [s.text]
    rw [List.append_nil, Text.words_of_solid s.text_ne_nil s.not_isBlank]
  | cons x t ih =>
    obtain ⟨⟨g, hg⟩, gapped⟩ := List.forall_mem_cons.1 gapped
    rw [text_cons, hg]
    change Text.words (s.text ++ (g.text ++ _)) = _
    rw [Text.words_append_gap g.text_ne_nil g.isBlank, ih gapped,
      Text.words_of_solid s.text_ne_nil s.not_isBlank]
    rfl

end Writing

end SqlReview.Sql
