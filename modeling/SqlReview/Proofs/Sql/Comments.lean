import SqlReview.Proofs.Sql.Remainder

/-!
A query without its comments: each is replaced by a blank, one that ends its line by a line feed.
The lexemes stay what they are but for the comments, and but for a carriage return before a comment,
which takes the line feed in.
-/
namespace SqlReview.Sql

def Lexeme.isComment : Lexeme → Bool
  | .lineComment _ | .blockComment _ => true
  | _ => false

def Lexeme.blanked : Lexeme → Lexeme
  | .lineComment _ => .blank '\n'
  | .blockComment _ => .blank ' '
  | l => l

/-- The text with a blank in the place of every comment. From the first fault on it stays. -/
def uncommented (s : Text) : Text :=
  match s with
  | [] => []
  | c :: r =>
    match h : scan c r with
    | .error _ => c :: r
    | .ok (l, rest) =>
      have := scan_length h
      (if l.isComment then l.blanked.spelling else (c :: r).take ((c :: r).length - rest.length)) ++
        uncommented rest
termination_by s.length
decreasing_by simp only [List.length_cons]; omega

/-- No comment, and no sign alone that a next character would belong to. -/
def Settled (l : Lexeme) (rest : Text) : Prop :=
  l.isComment = false ∧ (l.isOpen = true → ∀ c ∈ rest.head?, c = ' ')

section Settled

variable {s rest : Text} {l : Lexeme}

theorem settled_of_closed (h : l.isComment = false) (closed : l.isOpen = false) :
    Settled l rest := by
  refine ⟨h, fun isOpen => ?_⟩
  rw [closed] at isOpen
  cases isOpen

theorem settled_word {start : Text} (h : scanWord start s = .ok (l, rest)) : Settled l rest := by
  cases h
  exact settled_of_closed rfl rfl

theorem settled_string {form : StringForm} {quote : Char} {escapes : Bool} {at_ : Text}
    (h : scanString form quote escapes at_ s = .ok (l, rest)) : Settled l rest := by
  simp only [scanString] at h
  split at h
  · cases h; exact settled_of_closed rfl rfl
  · contradiction

theorem settled_raw {quote : Char} (h : scanRaw quote s = .ok (l, rest)) : Settled l rest := by
  unfold scanRaw at h
  repeat' split at h
  all_goals first
    | contradiction
    | exact settled_string h
    | (cases h; exact settled_of_closed rfl rfl)

theorem settled_number (h : scanNumber s = .ok (l, rest)) : Settled l rest := by
  simp only [scanNumber] at h
  repeat' split at h
  all_goals (cases h; exact settled_of_closed rfl rfl)

theorem settled_dollar (h : scanDollar s = .ok (l, rest)) : Settled l rest := by
  simp only [scanDollar] at h
  repeat' split at h
  all_goals first
    | contradiction
    | (cases h; exact settled_of_closed rfl rfl)

theorem settled_lettered {c : Char} (h : scanLettered c s = .ok (l, rest)) : Settled l rest := by
  simp only [scanLettered] at h
  repeat' split at h
  all_goals first
    | contradiction
    | exact settled_word h
    | exact settled_raw h
    | exact settled_string h
    | (cases h; exact settled_of_closed rfl rfl)

theorem settled_quotedWord {quote : Char} (h : scanQuotedWord quote s = .ok (l, rest)) :
    Settled l rest := by
  simp only [scanQuotedWord] at h
  split at h
  · cases h; exact settled_of_closed rfl rfl
  · contradiction

theorem settled_taking {sign : Text} (h : scanTaking sign s = .ok (l, rest)) : Settled l rest := by
  cases s with
  | nil =>
    cases h
    exact ⟨rfl, fun _ c hc => nomatch hc⟩
  | cons c s =>
    simp only [scanTaking] at h
    split at h
    · next space =>
      cases h
      refine ⟨rfl, fun _ d hd => ?_⟩
      cases hd
      exact space
    · exact settled_word h

theorem settled_at (h : scanAt s = .ok (l, rest)) : Settled l rest := by
  by_cases second : s.head? = some '@'
  · obtain ⟨s, rfl⟩ := List.head?_eq_some_iff.1 second
    rw [scanAt_at] at h
    exact settled_taking h
  · rw [scanAt_other second] at h
    exact settled_taking h

theorem settled_sign {c : Char} (h : scanSign c s = .ok (l, rest))
    (other : (c ≠ '#' ∧ c ≠ '@') ∨ ∃ d, s.head? = some d ∧ [c, d] ∈ longSigns) :
    Settled l rest := by
  have closed : ∀ sign ∈ longSigns,
      (Lexeme.symbol (if sign = ['!', '='] then ['<', '>'] else sign)).isOpen = false := by decide
  unfold scanSign at h
  split at h
  · next sign found =>
    cases h
    exact settled_of_closed rfl (closed sign (List.mem_of_find?_eq_some found))
  · next none =>
    cases h
    rcases other with ⟨hash, at_⟩ | ⟨d, next, known⟩
    · exact settled_of_closed rfl (by simp [Lexeme.isOpen, hash, at_])
    · obtain ⟨s, rfl⟩ := List.head?_eq_some_iff.1 next
      have sub := List.find?_eq_none.1 none [c, d] known
      simp [List.isPrefixOf] at sub

theorem settled_other {c : Char} (h : scanOther c s = .ok (l, rest)) : Settled l rest := by
  by_cases hash : c = '#'
  · subst hash
    rw [scanOther_hash] at h
    split at h
    · next long =>
      refine settled_sign h (.inr ?_)
      rcases long with next | next
      · exact ⟨'-', next, by decide⟩
      · exact ⟨'>', next, by decide⟩
    · exact settled_taking (scanHash_eq s ▸ h)
  by_cases at_ : c = '@'
  · subst at_
    rw [scanOther_at] at h
    split at h
    · next long =>
      refine settled_sign h (.inr ?_)
      rcases long with next | next
      · exact ⟨'>', next, by decide⟩
      · exact ⟨'?', next, by decide⟩
    · exact settled_at h
  simp only [scanOther, hash, at_, false_and, if_false] at h
  repeat' split at h
  · cases h; exact settled_of_closed rfl rfl
  · exact settled_dollar h
  · exact settled_word h
  · cases h; exact settled_of_closed rfl rfl
  · exact settled_sign h (.inl ⟨hash, at_⟩)

theorem isComment_of_scanComment? {c : Char} (h : scanComment? c s = some (.ok (l, rest))) :
    l.isComment = true ∧ (c = '-' ∨ c = '/') := by
  unfold scanComment? at h
  split at h
  · next line =>
    cases h
    exact ⟨rfl, .inl line.1⟩
  split at h
  · next block =>
    have h := Option.some.inj h
    split at h
    · cases h
      exact ⟨rfl, .inr block.1⟩
    · cases h
  · cases h

theorem settled_or_comment {c : Char} (h : scan c s = .ok (l, rest)) :
    Settled l rest ∨ l.isComment = true ∧ (c = '-' ∨ c = '/') := by
  simp only [scan] at h
  repeat' split at h
  · cases h; exact .inl (settled_of_closed rfl rfl)
  · cases h; exact .inl (settled_of_closed rfl rfl)
  · cases h; exact .inl (settled_of_closed rfl rfl)
  · exact .inl (settled_lettered h)
  · exact .inl (settled_string h)
  · exact .inl (settled_quotedWord h)
  · exact .inl (settled_number h)
  · cases e : scanComment? c s with
    | none => rw [e] at h; exact .inl (settled_other h)
    | some found => rw [e] at h; cases h; exact .inr (isComment_of_scanComment? e)

theorem settled_of_scan {c : Char} (h : scan c s = .ok (l, rest)) (kept : l.isComment = false) :
    Settled l rest := by
  apply (settled_or_comment h).resolve_right
  rw [kept]
  exact fun comment => nomatch comment.1

theorem head_of_comment {c : Char} (h : scan c s = .ok (l, rest)) (comment : l.isComment = true) :
    c = '-' ∨ c = '/' := by
  rcases settled_or_comment h with settled | ⟨_, head⟩
  · rw [settled.1] at comment
    cases comment
  · exact head

end Settled

inductive Cleaned : List Lexeme → List Lexeme → Prop
  | nil : Cleaned [] []
  | keep {l ls ls'} (kept : l.isComment = false) (later : Cleaned ls ls') :
      Cleaned (l :: ls) (l :: ls')
  | blank {l ls ls'} (comment : l.isComment = true) (later : Cleaned ls ls') :
      Cleaned (l :: ls) (l.blanked :: ls')
  | joined {ls ls'} (body : Text) (later : Cleaned ls ls') :
      Cleaned (.blank '\n' :: .lineComment body :: ls) (.blank '\n' :: ls')

section Uncommented

variable {s rest : Text} {l : Lexeme} {ls ls' : List Lexeme}

theorem uncommented_comment {c : Char} (h : scan c s = .ok (l, rest)) (comment : l.isComment = true) :
    uncommented (c :: s) = l.blanked.spelling ++ uncommented rest := by
  rw [uncommented]
  split
  · next fault => rw [h] at fault; cases fault
  · next found =>
    rw [h] at found
    cases found
    rw [if_pos comment]

theorem uncommented_lexeme {c : Char} (h : scan c s = .ok (l, rest)) (kept : l.isComment = false) :
    ∃ raw, s = raw ++ rest ∧ uncommented (c :: s) = c :: (raw ++ uncommented rest) := by
  have short := scan_length h
  obtain ⟨raw, rfl⟩ : rest <:+ s :=
    List.suffix_of_suffix_length_le (scan_suffix h) (List.suffix_cons c s) short
  refine ⟨raw, rfl, ?_⟩
  rw [uncommented]
  split
  · next fault => rw [h] at fault; cases fault
  · next found =>
    rw [h] at found
    cases found
    have length : (c :: (raw ++ rest)).length - rest.length = (c :: raw).length := by
      simp only [List.length_cons, List.length_append]
      omega
    rw [if_neg (by simp [kept]), length, ← List.cons_append, List.take_left' rfl]
    rfl

/-- The text goes on unchanged up to its next comment, in the place of which a blank stands. -/
theorem uncommented_split (h : lexemes s = .ok ls) : ∃ w u t, s = w ++ u ∧ uncommented s = w ++ t ∧
    (u = t ∨ ∃ c v l rest, u = c :: v ∧ scan c v = .ok (l, rest) ∧ l.isComment = true ∧
      t = l.blanked.spelling ++ uncommented rest) := by
  fun_induction lexemes s generalizing ls with
  | case1 => exact ⟨[], [], [], rfl, by rw [uncommented]; rfl, .inl rfl⟩
  | case2 => cases h
  | case3 c r l rest e _ ih =>
    obtain ⟨ms, later, _⟩ := exists_of_map_cons h
    cases comment : l.isComment with
    | true => exact ⟨[], c :: r, _, rfl, uncommented_comment e comment,
        .inr ⟨c, r, l, rest, rfl, e, comment, rfl⟩⟩
    | false =>
      obtain ⟨raw, rfl, cleaned⟩ := uncommented_lexeme e comment
      obtain ⟨w, u, t, split, split', next⟩ := ih later
      refine ⟨c :: (raw ++ w), u, t, ?_, ?_, next⟩
      · rw [split]
        simp
      · rw [cleaned, split']
        simp

theorem scan_carriage (s : Text) :
    scan '\r' s = .ok (.blank '\n', if s.head? = some '\n' then s.tail else s) := rfl

theorem lexemes_blanked (comment : l.isComment = true) (s : Text) :
    lexemes (l.blanked.spelling ++ s) = (lexemes s).map (l.blanked :: ·) := by
  cases l with
  | lineComment | blockComment => exact lexemes_of_scan rfl
  | _ => cases comment

theorem Stops.blanked (comment : l.isComment = true) (s : Text) : Stops (l.blanked.spelling ++ s) := by
  cases l with
  | lineComment => exact ⟨'\n', by decide, rfl⟩
  | blockComment => exact ⟨' ', by decide, rfl⟩
  | _ => cases comment

/-- A lexeme that is no comment is read again, whatever stands in the place of the comments after
it. A carriage return alone is read apart from a line feed that is put there. -/
theorem scan_uncommented {c : Char} {raw : Text} (e : scan c (raw ++ rest) = .ok (l, rest))
    (kept : l.isComment = false) (later : lexemes rest = .ok ls)
    (line : c = '\r' → raw = [] → ∀ ms body, ls ≠ .lineComment body :: ms) :
    scan c (raw ++ uncommented rest) = .ok (l, uncommented rest) := by
  obtain ⟨w, u, t, split, split', same | ⟨d, v, k, rest', rfl, e', comment, rfl⟩⟩ :=
    uncommented_split later
  · rw [split', ← same, ← split]
    exact e
  · rw [split, ← List.append_assoc] at e
    rw [split', ← List.append_assoc]
    apply scan_exchange (Stops.blanked comment _) _ _ e
    · -- a comment begins with no space, so no sign stood alone before it
      rintro rfl
      rw [← Bool.not_eq_true]
      intro isOpen
      have space := (settled_of_scan e kept).2 isOpen d rfl
      rcases head_of_comment e' comment with rfl | rfl <;> cases space
    · intro carriage alone
      obtain ⟨rfl, rfl⟩ := List.append_eq_nil_iff.1 alone
      intro feed
      cases k with
      | lineComment body =>
        have first : rest = d :: v := split
        rw [first] at later
        obtain ⟨_, _, ms, found, _, rfl⟩ := exists_of_lexemes_cons later
        rw [e'] at found
        cases found
        exact line carriage rfl ms body rfl
      | blockComment => cases feed
      | _ => cases comment

theorem lexemes_uncommented (h : lexemes s = .ok ls) :
    ∃ ls', lexemes (uncommented s) = .ok ls' ∧ Cleaned ls ls' := by
  fun_induction lexemes s generalizing ls with
  | case1 =>
    cases h
    exact ⟨[], by rw [uncommented, lexemes], .nil⟩
  | case2 => cases h
  | case3 c r l rest e _ ih =>
    obtain ⟨ms, later, rfl⟩ := exists_of_map_cons h
    obtain ⟨ms', cut, cleaned⟩ := ih later
    cases comment : l.isComment with
    | true =>
      refine ⟨l.blanked :: ms', ?_, .blank comment cleaned⟩
      rw [uncommented_comment e comment, lexemes_blanked comment, cut]
      rfl
    | false =>
      obtain ⟨raw, rfl, e'⟩ := uncommented_lexeme e comment
      rw [e']
      by_cases joined : c = '\r' ∧ raw = [] ∧ ∃ ms₂ body, ms = .lineComment body :: ms₂
      · obtain ⟨rfl, rfl, ms₂, body, rfl⟩ := joined
        rw [scan_carriage] at e
        obtain rfl : .blank '\n' = l := (Prod.mk.inj (Except.ok.inj e)).1
        obtain ⟨d, v, rest', rfl, comment', _⟩ := exists_of_lexemes later
        have feed : uncommented (d :: v) = '\n' :: uncommented rest' :=
          uncommented_comment comment' rfl
        cases cleaned with
        | keep kept => cases kept
        | @blank _ _ ms₂' _ cleaned =>
          rw [feed] at cut ⊢
          obtain ⟨_, _, _, first, e₂, cut⟩ := exists_of_lexemes cut
          cases first
          cases e₂
          refine ⟨.blank '\n' :: ms₂', ?_, .joined body cleaned⟩
          rw [List.nil_append, lexemes_of_scan (scan_carriage _)]
          exact congrArg (Except.map _) cut
      · refine ⟨l :: ms', ?_, .keep comment cleaned⟩
        rw [lexemes_of_scan (scan_uncommented e comment later ?_), cut]
        · rfl
        · intro carriage empty ms₂ body first
          exact joined ⟨carriage, empty, ms₂, body, first⟩

end Uncommented

end SqlReview.Sql
