import SqlReview.Layout.Page
import SqlReview.Layout.Scan

/-!
Laying out the pieces of a query: one clause per line, its items below it, and blocks between
parentheses indented unless they fit on a line.
-/
namespace SqlReview.Layout

/-- A piece in its place: the pieces before it, the nearest first, and those after it. -/
structure Site where
  before : List Piece
  after : List Piece

def Settings.spell (settings : Settings) (text : Text) : Text :=
  let cased := if settings.uppercaseKeywords then Text.upper text else Text.lower text
  [' '].intercalate (Text.words cased)

/-- The longest block that is kept on a line, in bytes. -/
def maxInlineBytes : Nat := 50

def byteLength : Text → Nat
  | [] => 0
  | c :: s => c.utf8Size + byteLength s

/-- The bytes from an opening piece to its partner or the end, or none when the block cannot stand
on a line: it holds a comment, a semicolon, a breaker or a second clause at the level of its
first. -/
def inlineBytes? : (level : Nat) → (clauseAt : Option Nat) → List Piece → Option Nat
  | _, _, [] => some 0
  | level, clauseAt, p :: ps =>
    match p.kind with
    | .lineComment | .blockComment | .breaker => none
    | .clause | .flatClause =>
      if clauseAt = some level then none
      else (inlineBytes? level (clauseAt.getD level) ps).map (· + byteLength p.text)
    | .opening => (inlineBytes? (level + 1) clauseAt ps).map (· + byteLength p.text)
    | .closing =>
      if level ≤ 1 then some (byteLength p.text)
      else (inlineBytes? (level - 1) clauseAt ps).map (· + byteLength p.text)
    | _ =>
      if p.text = [';'] then none
      else (inlineBytes? level clauseAt ps).map (· + byteLength p.text)

def fitsOnLine (ps : List Piece) : Bool := (inlineBytes? 0 none ps).any (· ≤ maxInlineBytes)

/-- The lines of a comment after the first keep their blanks only as one more space than the
indentation. -/
def indentComment (indent : Text) (text : Text) : Text :=
  match Text.pieces '\n' text with
  | [] => []
  | first :: lines =>
    first ++ lines.flatMap fun line =>
      match line with
      | ' ' :: _ | '\t' :: _ =>
        '\n' :: indent ++ ' ' :: line.dropWhile fun c => c == ' ' || c == '\t'
      | _ => '\n' :: line

def hasContent (depth : Nat) (site : Site) : Bool :=
  match site.after with
  | [] => false
  | p :: _ =>
    match p.kind with
    | .closing => depth == 0
    | .clause | .follower | .flatClause => false
    | _ => true

/-- A switch that turns the layout off (`some false`) or on again: a line comment that begins with
the mark of one, whatever blanks are in it. -/
def switch? (p : Piece) : Option Bool :=
  match p.kind, p.text with
  | .lineComment, '-' :: '-' :: rest =>
    let mark := Text.lower (rest.filter fun c => !Text.isBlank c)
    if ("fmt:on" : Text).isPrefixOf mark then some true
    else if ("fmt:off" : Text).isPrefixOf mark then some false
    else none
  | _, _ => none

namespace Page

variable (settings : Settings) (site : Site) (p : Piece)

def lineComment (page : Page) : Page :=
  let ownLine := site.before.head?.any (fun q => q.text.any (· == '\n')) &&
    match site.after with
    | next :: following :: _ => next.kind == .space && following.kind != .operator
    | _ => false
  let page :=
    if ownLine then page.newline settings
    else if (site.before.drop 1).head?.any (·.text == [',']) then page.trimBreaks.add [' ', ' ']
    else page
  (page.add p.text).newline settings

def blockComment (page : Page) : Page :=
  let page := page.newline settings
  (page.add (indentComment (page.indentText settings) p.text)).newline settings

def clause (page : Page) : Page :=
  let breaks := hasContent page.depth site && p.clauseName != "CREATE"
  let page := (page.popClause.newline settings).add (settings.spell p.text)
  let page := (page.setReserved p.text).setClauseOnLine !breaks
  if breaks then (page.pushLevel .clause).newline settings else page.addSpace

def flatClause (page : Page) : Page :=
  let breaks := hasContent page.depth site
  let page := (page.popClause.newline settings).add (settings.spell p.text)
  let page := page.setReserved p.text
  if breaks then page.newline settings else page.addSpace

def follower (page : Page) : Page :=
  let page := (page.popClause.newline settings).add (settings.spell p.text)
  let page := (page.setReserved p.text).setClauseOnLine false
  (page.pushLevel .clause).newline settings

def breaker (page : Page) : Page :=
  let page :=
    if page.isInline then page.trimSpaces.addSpace
    else if page.block.clauseOnLine then
      ((page.pushLevel .clause).setClauseOnLine false).newline settings
    else page.newline settings
  ((page.add (settings.spell p.text)).addSpace).setReserved p.text

def opening (page : Page) : Page :=
  let inline :=
    if page.isInline then page.inline + 1 else if fitsOnLine (p :: site.after) then 1 else 0
  let previous := site.before.head?.map Piece.kind
  let page :=
    if previous = some .closing ∨ previous = some .reserved then page.trimSpaces.addSpace
    else if previous = some .space ∨ previous = some .opening ∨ previous = some .lineComment then
      page
    else page.trimSpaces
  let page := { page.openBlock.add (settings.spell p.text) with inline, depth := page.depth + 1 }
  if inline = 0 then page.newline settings
  else if p.text = ['('] then page
  else page.addSpace

def closing (page : Page) : Page :=
  let inline := page.isInline
  let page := { page.closeBlock with inline := page.inline - 1, depth := page.depth - 1 }
  let page :=
    if !inline then page.newline settings
    else if p.text = [')'] then page.trimSpaces
    else page.trimSpaces.addSpace
  (page.add (settings.spell p.text)).addSpace

def typeMark (page : Page) : Page :=
  let page := page.trimBreaks.add p.text
  let next := site.after.find? fun q => q.kind != .space
  if next.any Piece.isReserved then page.addSpace else page

def comma (page : Page) : Page :=
  let page := page.trimSpaces.add [',', ' ']
  if page.isInline || Text.lower page.block.reserved == "limit" then page
  else page.newline settings

def separator (page : Page) : Page :=
  { page.trimSpaces.add [';', '\n'] with levels := [], blocks := [.new] }

def write (page : Page) : Page :=
  match p.kind with
  | .space => page
  | .lineComment => page.lineComment settings site p
  | .blockComment => page.blockComment settings p
  | .clause => page.clause settings site p
  | .flatClause => page.flatClause settings site p
  | .follower => page.follower settings p
  | .breaker => page.breaker settings p
  | .reserved => ((page.add (settings.spell p.text)).addSpace).setReserved p.text
  | .opening => page.opening settings site p
  | .closing => page.closing settings p
  | .typeMark => page.typeMark site p
  | _ =>
    match p.text with
    | [','] => page.comma settings
    | [':'] => page.trimSpaces.add [':', ' ']
    | ['.'] => page.trimSpaces.add ['.']
    | [';'] => page.separator
    | text => (page.add text).addSpace

end Page

/-- Writes the pieces one after the other. A switch and the piece after it leave no trace; while the
layout is off, pieces are copied. -/
def render (settings : Settings) : (on : Bool) → (before : List Piece) → List Piece → Page → Page
  | _, _, [], page => page
  | on, before, p :: ps, page =>
    match switch? p, ps with
    | some on, q :: ps => render settings on (q :: p :: before) ps page
    | some _, [] => page
    | none, ps =>
      if on then render settings on (p :: before) ps (page.write settings ⟨before, ps⟩ p)
      else render settings on (p :: before) ps (page.add p.text)

def plainBreaks : Text → Text
  | '\r' :: '\n' :: s => '\n' :: plainBreaks s
  | c :: s => c :: plainBreaks s
  | [] => []

inductive LayoutError where
  | emptyInput
deriving Repr, DecidableEq

def LayoutError.message : LayoutError → Text
  | .emptyInput => "empty SQL input"

def format (settings : Settings) (query : Text) : Except LayoutError Text :=
  let query := Text.trim query
  if query.isEmpty then .error .emptyInput
  else
    let page := render settings true [] (pieces query) .blank
    .ok (Text.trimRight (plainBreaks (Text.trim page.text)))

end SqlReview.Layout
