import Mathlib.Data.List.Forall2
import SqlReview.Record.Document
import SqlReview.Proofs.Json.Fields

/-!
The forms in which a document may give a record. Members are given by their names, among any others,
or in a list by their places; some may be left out. A reader of records accepts just these forms, if
the readers of the members do.
-/
namespace SqlReview.Record

/-- What is known of a member of a record: how a document gives it, and whether it may be missing,
among named members or at the end of a list. -/
structure Member where
  name : Text
  given : Json → Prop
  omitted : Prop
  cutOff : Prop

section Kinds

variable {α : Type}

namespace Member

variable (name : Text) (form : α → Json → Prop)

def required (a : α) : Member := ⟨name, form a, False, False⟩

def optional (a : Option α) : Member :=
  ⟨name, fun v => a.elim (v = .null) fun a => v ≠ .null ∧ form a v, a = none, False⟩

def defaulted (default a : α) : Member := ⟨name, form a, a = default, a = default⟩

end Member

/-- A document that gives the members, and whatever else there is beside named ones. -/
def Gives (members : List Member) : Json → Prop
  | .object fields =>
    ∀ member ∈ members, ((Json.object fields).get? member.name).elim member.omitted member.given
  | .array items =>
    items.length ≤ members.length ∧
      ∀ x ∈ members.zipIdx, (items[x.2]?).elim x.1.cutOff x.1.given
  | _ => False

def Only (encode : α → Json) (a : α) (v : Json) : Prop := v = encode a

/-- The name of a choice, or a record of that one name with null beside it. -/
def Names (name : α → Text) (a : α) (v : Json) : Prop :=
  v = .string (name a) ∨ v = .object [(name a, .null)]

def ListOf (form : α → Json → Prop) (as : List α) (v : Json) : Prop :=
  ∃ items, v = .array items ∧ List.Forall₂ form as items

end Kinds

section Readers

variable {α : Type} {v : Json} {read : Json → Option α} {form : α → Json → Prop}

theorem text?_eq_some_iff (v : Json) (s : Text) : Json.text? v = some s ↔ Only .string s v := by
  cases v <;> simp [Json.text?, Only]

theorem natural?_eq_some_iff (v : Json) (n : Nat) :
    Json.natural? v = some n ↔ Only .ofNat n v := by
  cases v with
  | number m => cases m <;> simp [Json.natural?, Json.ofNat, Only]
  | _ => simp [Json.natural?, Json.ofNat, Only]

theorem flag?_eq_some_iff (v : Json) (b : Bool) : Json.flag? v = some b ↔ Only .bool b v := by
  cases v <;> simp [Json.flag?, Only]

@[simp] theorem document_text? : (Document.text? : Json → Option Text) = Json.text? := rfl

@[simp] theorem document_natural? : (Document.natural? : Json → Option Nat) = Json.natural? := rfl

@[simp] theorem document_flag? : (Document.flag? : Json → Option Bool) = Json.flag? := rfl

theorem choice?_eq_some_iff {all : List α} {name : α → Text}
    (listed : ∀ a, (all.find? fun b => name b == name a) = some a) (v : Json) (a : α) :
    choice? all name v = some a ↔ Names name a v := by
  have found (s : Text) : (all.find? fun b => name b == s) = some a ↔ s = name a := by
    constructor
    · intro h
      exact (eq_of_beq (List.find?_some h :)).symm
    · rintro rfl
      exact listed a
  cases v with
  | string s => simp [choice?, Document.text?, Json.text?, Names, found]
  | object fields =>
    match fields with
    | [(s, payload)] =>
      cases payload <;>
        simp [choice?, Document.text?, Json.text?, Document.fields?, Json.fields?,
          Document.isNothing, Names, found]
    | [] | _ :: _ :: _ =>
      simp [choice?, Document.text?, Json.text?, Document.fields?, Json.fields?, Names]
  | _ => simp [choice?, Document.text?, Json.text?, Document.fields?, Json.fields?, Names]

theorem items?_bind_eq_some_iff {readAll : List Json → Option (List α)} {as : List α}
    (reads : ∀ items, readAll items = some as ↔ List.Forall₂ form as items) :
    (Json.items? v).bind readAll = some as ↔ ListOf form as v := by
  cases v <;> simp [Json.items?, ListOf, reads]

theorem list?_eq_some_iff (reads : ∀ v a, read v = some a ↔ form a v) (v : Json) (as : List α) :
    list? read v = some as ↔ ListOf form as v := by
  refine items?_bind_eq_some_iff fun items => ?_
  induction items generalizing as with
  | nil => cases as <;> simp
  | cons item items ih =>
    cases as with
    | nil => simp [List.mapM_cons, Option.bind_eq_some_iff]
    | cons a as => simp [List.mapM_cons, Option.bind_eq_some_iff, reads, ih]

/-- A member as it stands in a document that is given by names or by places. -/
def Member.StandsIn (member : Member) (place : Nat) (m : Members Json) : Prop :=
  (m.get? member.name place).elim
    (match m with
      | .named _ => member.omitted
      | .placed _ => member.cutOff)
    member.given

def StandIn (m : Members Json) : (place : Nat) → List Member → Prop
  | _, [] => True
  | place, member :: members => member.StandsIn place m ∧ StandIn m (place + 1) members

theorem standIn_iff {m : Members Json} {place : Nat} {members : List Member} :
    StandIn m place members ↔ ∀ x ∈ members.zipIdx place, x.1.StandsIn x.2 m := by
  induction members generalizing place with
  | nil => simp [StandIn]
  | cons member members ih => rw [StandIn, ih, List.zipIdx_cons, List.forall_mem_cons]

theorem gives_iff {members : List Member} :
    Gives members v ↔ ∃ m, members? members.length v = some m ∧ StandIn m 0 members := by
  simp only [standIn_iff]
  cases v with
  | object fields =>
    have named : (∀ x ∈ members.zipIdx, x.1.StandsIn x.2 (.named fields)) ↔
        Gives members (.object fields) := by
      constructor
      · intro all member there
        obtain ⟨place, h⟩ := List.mem_iff_getElem?.1 there
        exact all (member, place) (List.mk_mem_zipIdx_iff_getElem?.2 h)
      · intro all x there
        exact all _ (List.fst_mem_of_mem_zipIdx there)
    simp only [members?, Document.fields?, Json.fields?, Option.some.injEq, exists_eq_left',
      named]
  | array items =>
    simp [members?, Document.fields?, Json.fields?, Document.items?, Json.items?, Gives,
      Member.StandsIn, Members.get?]
  | _ => simp [members?, Document.fields?, Json.fields?, Document.items?, Json.items?, Gives]

variable {name : Text} {place : Nat} {m : Members Json}

theorem required_eq_some_iff {a : α} (reads : ∀ v, read v = some a ↔ form a v) :
    m.required name place read = some a ↔ (Member.required name form a).StandsIn place m := by
  unfold Members.required Member.StandsIn Member.required
  cases m.get? name place <;> cases m <;> simp [reads]

theorem optional_eq_some_iff (reads : ∀ v a, read v = some a ↔ form a v) {a : Option α} :
    m.optional name place read = some a ↔ (Member.optional name form a).StandsIn place m := by
  unfold Members.optional Member.StandsIn Member.optional
  cases m.get? name place with
  | none => cases m <;> simp [eq_comm]
  | some w =>
    by_cases null : w = .null
    · subst null
      cases a <;> simp [Document.isNull]
    · have there : Document.isNull w = false := by
        cases w <;> simp_all [Document.isNull]
      cases a <;> simp [there, null, reads]

theorem defaulted_eq_some_iff (reads : ∀ v a, read v = some a ↔ form a v) {default a : α} :
    m.defaulted name place default read = some a ↔
      (Member.defaulted name form default a).StandsIn place m := by
  unfold Members.defaulted Member.StandsIn Member.defaulted
  cases m.get? name place <;> cases m <;> simp [reads, eq_comm]

end Readers

section Written

variable {α : Type} {encode : α → Json} {form : α → Json → Prop}

theorem only_encode (encode : α → Json) (a : α) : Only encode a (encode a) := rfl

theorem listOf_map (written : ∀ a, form a (encode a)) (as : List α) :
    ListOf form as (.array (as.map encode)) :=
  ⟨_, rfl, List.forall₂_map_right_iff.2 (List.forall₂_same.2 fun a _ => written a)⟩

theorem optional_given (name : Text) (something : ∀ a, encode a ≠ .null)
    (written : ∀ a, form a (encode a)) (a : Option α) :
    (Member.optional name form a).given (.ofOption encode a) := by
  cases a with
  | none => rfl
  | some a => exact ⟨something a, written a⟩

theorem gives_ofFields {members : List Member} {fields : List (Text × Json)}
    (distinct : (fields.map Prod.fst).Nodup)
    (h : List.Forall₂ (fun member field => field.1 = member.name ∧ member.given field.2)
      members fields) : Gives members (.ofFields fields) := by
  intro member there
  obtain ⟨w, present, given⟩ : ∃ w, (member.name, w) ∈ fields ∧ member.given w := by
    clear distinct
    induction h with
    | nil => cases there
    | @cons _ field _ _ here _ ih =>
      rcases List.mem_cons.1 there with rfl | there
      · exact ⟨field.2, here.1 ▸ List.mem_cons_self, here.2⟩
      · obtain ⟨w, present, given⟩ := ih there
        exact ⟨w, List.mem_cons_of_mem _ present, given⟩
  have found := Json.get?_ofFields_of_mem distinct present
  rw [Json.ofFields] at found
  rw [found]
  exact given

end Written

end SqlReview.Record
