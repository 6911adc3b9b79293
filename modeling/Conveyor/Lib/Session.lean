import Mathlib.Data.List.Infix

/-!
# Sessions that issue statements under a constraint

A session issues statements against a database and keeps a log of them: the content each one met
and whether the constraint rejected it. A rejected statement changes nothing and raises an error;
a transaction that ends with an error restores the content it began with.

`Safe` is the rule for programs over such a session. It follows the log: as long as every
statement so far was admissible, the content satisfies an invariant and every statement of the log
was acceptable. One step lemma about single statements gives it for every program.
-/

namespace Conveyor.Lib

/-- Statements over a database: what each one does, and whether a content breaks the constraint. -/
class Statements (D Q : Type) where
  effect : Q → D → D
  violates : D → Bool

/-- One issued statement, with the content it met. -/
structure Issued (D Q : Type) where
  before : D
  statement : Q
  rejected : Bool

/-- The content of the database and the statements issued so far. -/
structure Session (D Q : Type) where
  db : D
  log : List (Issued D Q) := []

/-- A program that issues statements and may fail with an error. -/
abbrev SessionM (D Q E : Type) := ExceptT E (StateM (Session D Q))

namespace SessionM

variable {D Q E F A B : Type}

/-- Evaluate a query on the current content. -/
def read (f : D → A) : SessionM D Q E A := do
  let session ← get
  return f session.db

section Statements

variable [Statements D Q]

/-- The log entry of a statement issued against a content. -/
def issued (db : D) (statement : Q) : Issued D Q :=
  { before := db, statement := statement, rejected := Statements.violates Q (Statements.effect statement db) }

/-- Issue one statement; a rejected one raises the given error. -/
def issue (onReject : E) (statement : Q) : SessionM D Q E Unit := fun session =>
  let entry := issued session.db statement
  let log := session.log ++ [entry]
  if entry.rejected then (.error onReject, { session with log := log })
  else (.ok (), { db := Statements.effect statement session.db, log := log })

end Statements

/-- Run a body whose statements take effect together or not at all. -/
def transaction (body : SessionM D Q E A) : SessionM D Q E A := fun session =>
  match body session with
  | (.ok a, after) => (.ok a, after)
  | (.error e, after) => (.error e, { after with db := session.db })

/-- Change the error a program fails with. -/
def mapError (f : E → F) (program : SessionM D Q E A) : SessionM D Q F A :=
  ExceptT.adapt f program

section Rules

variable (Adm Ok : Issued D Q → Prop) (Inv : D → Prop)

/-- While every statement was admissible, the content satisfies the invariant, and each statement
up to which all were admissible was acceptable. -/
structure Sound (session : Session D Q) : Prop where
  inv : (∀ entry ∈ session.log, Adm entry) → Inv session.db
  ok : ∀ first entry rest, session.log = first ++ entry :: rest → (∀ e ∈ first ++ [entry], Adm e) → Ok entry

/-- A program keeps its session sound and only appends to the log. -/
def Safe (program : SessionM D Q E A) : Prop :=
  ∀ session, Sound Adm Ok Inv session → Sound Adm Ok Inv (program session).2 ∧ session.log <+: (program session).2.log

/-- An admissible statement is acceptable and, unless it is rejected, keeps the invariant. -/
def StepsSafely [Statements D Q] : Prop :=
  ∀ db (statement : Q), Inv db → Adm (issued db statement) →
    Ok (issued db statement) ∧ ((issued db statement).rejected = false → Inv (Statements.effect statement db))

end Rules

variable {program body : SessionM D Q E A} {next : A → SessionM D Q E B} {c : Prop}

section Sequence

variable {session after mid : Session D Q} {a : A} {b : B} {e : E}

/-- A program goes on with the value a first step returns. -/
theorem bind_ok (h : program session = (.ok a, mid)) : (program >>= next) session = next a mid := by
  change ExceptT.bindCont next (program session).1 (program session).2 = _
  rw [h]
  rfl

/-- It ends with the error of a first step that fails. -/
theorem bind_error (h : program session = (.error e, after)) : (program >>= next) session = (.error e, after) := by
  change ExceptT.bindCont next (program session).1 (program session).2 = _
  rw [h]
  rfl

/-- A program that returns after a first step returns from the rest of it. -/
theorem bind_eq_ok (h : (program >>= next) session = (.ok b, after)) :
    ∃ a mid, program session = (.ok a, mid) ∧ next a mid = (.ok b, after) := by
  rcases hrun : program session with ⟨r, mid⟩
  cases r with
  | error e =>
    rw [bind_error hrun] at h
    cases h
  | ok a => exact ⟨a, mid, rfl, (bind_ok hrun).symm.trans h⟩

/-- Two continuations that agree on what a first step returns give the same program. -/
theorem bind_congr_at {next' : A → SessionM D Q E B}
    (h : ∀ a mid, program session = (.ok a, mid) → next a mid = next' a mid) :
    (program >>= next) session = (program >>= next') session := by
  rcases hrun : program session with ⟨r, mid⟩
  cases r with
  | error e => rw [bind_error hrun, bind_error hrun]
  | ok a => rw [bind_ok hrun, bind_ok hrun, h a mid hrun]

end Sequence

section

variable {Adm Ok : Issued D Q → Prop} {Inv : D → Prop}

/-- A value is safe. -/
theorem safe_pure (a : A) : Safe Adm Ok Inv (pure a : SessionM D Q E A) :=
  fun session h => ⟨h, List.prefix_refl session.log⟩

/-- An error is safe. -/
theorem safe_throw (e : E) : Safe Adm Ok Inv (throw e : SessionM D Q E A) :=
  fun session h => ⟨h, List.prefix_refl session.log⟩

/-- A query is safe. -/
theorem safe_read (f : D → A) : Safe Adm Ok Inv (read f : SessionM D Q E A) :=
  fun session h => ⟨h, List.prefix_refl session.log⟩

/-- Safe programs in sequence are safe. -/
theorem safe_bind (hprogram : Safe Adm Ok Inv program)
    (hnext : ∀ a, Safe Adm Ok Inv (next a)) : Safe Adm Ok Inv (program >>= next) := by
  intro session h
  obtain ⟨hmid, hlog⟩ := hprogram session h
  rcases hrun : program session with ⟨r, after⟩
  rw [hrun] at hmid hlog
  cases r with
  | error e =>
    rw [bind_error hrun]
    exact ⟨hmid, hlog⟩
  | ok a =>
    rw [bind_ok hrun]
    obtain ⟨hend, hlog'⟩ := hnext a after hmid
    exact ⟨hend, hlog.trans hlog'⟩

/-- The result of a safe program may be mapped. -/
theorem safe_map (f : A → B) (hprogram : Safe Adm Ok Inv program) :
    Safe Adm Ok Inv (f <$> program) := safe_bind hprogram fun a => safe_pure (f a)

/-- A choice of safe programs is safe. -/
theorem safe_ite [Decidable c] {first second : SessionM D Q E A} (hfirst : Safe Adm Ok Inv first)
    (hsecond : Safe Adm Ok Inv second) : Safe Adm Ok Inv (if c then first else second) := by
  split
  · exact hfirst
  · exact hsecond

/-- The content restored by a failed transaction belongs to a prefix of the log. -/
theorem safe_transaction (hbody : Safe Adm Ok Inv body) : Safe Adm Ok Inv (transaction body) := by
  intro session h
  obtain ⟨hmid, hlog⟩ := hbody session h
  unfold transaction
  rcases hrun : body session with ⟨r, after⟩
  rw [hrun] at hmid hlog
  cases r with
  | ok a => exact ⟨hmid, hlog⟩
  | error e =>
    refine ⟨⟨fun hadm => h.inv fun entry hentry => ?_, hmid.ok⟩, hlog⟩
    exact hadm entry (hlog.subset hentry)

/-- The error of a safe program may be mapped. -/
theorem safe_mapError {f : E → F} (h : Safe Adm Ok Inv program) :
    Safe Adm Ok Inv (mapError f program) := h

/-- A loop over a safe body is safe. -/
theorem safe_forM {values : List A} {body : A → SessionM D Q E PUnit}
    (hbody : ∀ a ∈ values, Safe Adm Ok Inv (body a)) : Safe Adm Ok Inv (values.forM body) := by
  induction values with
  | nil => exact safe_pure _
  | cons a rest ih =>
    refine safe_bind (hbody a (.head _)) fun _ => ih fun x hx => ?_
    exact hbody x (.tail a hx)

/-- A statement keeps the session sound: a new entry is the last of the log, so the entries before
it are the ones the invariant was known for. -/
theorem safe_issue [Statements D Q] (hstep : StepsSafely Adm Ok Inv) (onReject : E) (statement : Q) :
    Safe Adm Ok Inv (issue onReject statement) := by
  intro session h
  have hlast : ∀ entries : List (Issued D Q), entries = session.log ++ [issued session.db statement] →
      (∀ entry ∈ entries, Adm entry) → Inv session.db ∧ Adm (issued session.db statement) := by
    rintro entries rfl hadm
    exact ⟨h.inv fun entry hentry => hadm entry (List.mem_append_left _ hentry),
      hadm _ (List.mem_append_right _ (.head _))⟩
  have hok : ∀ first entry rest, session.log ++ [issued session.db statement] = first ++ entry :: rest →
      (∀ e ∈ first ++ [entry], Adm e) → Ok entry := by
    intro first entry rest heq hadm
    rcases List.eq_nil_or_concat rest with rfl | ⟨init, last, rfl⟩
    · obtain ⟨hfirst, hentry⟩ := List.append_inj' heq rfl
      cases hentry
      obtain ⟨hinv, hadm'⟩ := hlast _ (by rw [hfirst]) hadm
      exact (hstep session.db statement hinv hadm').1
    · rw [List.concat_eq_append, ← List.cons_append, ← List.append_assoc] at heq
      exact h.ok first entry init (List.append_inj' heq rfl).1 hadm
  have hprefix : session.log <+: session.log ++ [issued session.db statement] := List.prefix_append _ _
  unfold issue
  by_cases hrej : (issued session.db statement).rejected = true
  · rw [if_pos hrej]
    exact ⟨⟨fun hadm => (hlast _ rfl hadm).1, hok⟩, hprefix⟩
  · rw [if_neg hrej]
    refine ⟨⟨fun hadm => ?_, hok⟩, hprefix⟩
    obtain ⟨hinv, hadm'⟩ := hlast _ rfl hadm
    exact (hstep session.db statement hinv hadm').2 (Bool.eq_false_iff.mpr hrej)

end

variable {f : D → A} {pre' : D → Prop} {post' : A → D → Prop} {fact : Prop} {final : B → D → Prop} {onReject : E}
  {statement : Q}

section Postconditions

/-- A program that starts on a content with one property and returns a value leaves that value and
the content in a relation. -/
def Ensures (pre : D → Prop) (program : SessionM D Q E A) (post : A → D → Prop) : Prop :=
  ∀ session, pre session.db → ∀ a after, program session = (.ok a, after) → post a after.db

variable {pre : D → Prop} {post : A → D → Prop}

/-- A value meets what holds of it. -/
theorem ensures_pure {a : A} (h : ∀ db, pre db → post a db) : Ensures pre (pure a : SessionM D Q E A) post := by
  intro session hpre b after hrun
  cases hrun
  exact h _ hpre

/-- A query meets what holds of its answer. -/
theorem ensures_read (h : ∀ db, pre db → post (f db) db) : Ensures pre (read f : SessionM D Q E A) post := by
  intro session hpre b after hrun
  cases hrun
  exact h _ hpre

/-- The rule of consequence. -/
theorem ensures_mono (h : Ensures pre' program post') (hpre : ∀ db, pre db → pre' db)
    (hpost : ∀ a db, post' a db → post a db) : Ensures pre program post :=
  fun session hsession a after hrun => hpost a after.db (h session (hpre _ hsession) a after hrun)

/-- What the precondition says regardless of the content may be assumed. -/
theorem ensures_of_fact (hfact : ∀ db, pre db → fact)
    (h : fact → Ensures pre program post) : Ensures pre program post :=
  fun session hsession => h (hfact _ hsession) session hsession

/-- The rule of sequence. -/
theorem ensures_bind (mid : A → D → Prop) (hprogram : Ensures pre program mid)
    (hnext : ∀ a, Ensures (mid a) (next a) final) : Ensures pre (program >>= next) final := by
  intro session hpre b after hrun
  obtain ⟨a, between, hfirst, hrest⟩ := bind_eq_ok hrun
  exact hnext a between (hprogram session hpre a between hfirst) b after hrest

/-- The rule of choice. -/
theorem ensures_ite [Decidable c] {first second : SessionM D Q E A} (hfirst : Ensures pre first post)
    (hsecond : Ensures pre second post) : Ensures pre (if c then first else second) post := by
  split
  · exact hfirst
  · exact hsecond

/-- A statement that is accepted has its effect. -/
theorem ensures_issue [Statements D Q] {post : Unit → D → Prop}
    (h : ∀ db, pre db → post () (Statements.effect statement db)) : Ensures pre (issue onReject statement) post := by
  intro session hpre a after hrun
  simp only [issue] at hrun
  split at hrun
  · cases hrun
  · cases hrun
    exact h _ hpre

end Postconditions

section Totality

/-- A program that starts on a content with one property returns a value, and leaves that value and the
content in a relation; it may fail only if it is not allowed to succeed. -/
def Returns (allowed : Prop) (pre : D → Prop) (program : SessionM D Q E A) (post : A → D → Prop) : Prop :=
  ∀ session, pre session.db → (∃ a after, program session = (.ok a, after) ∧ post a after.db) ∨
    ¬ allowed ∧ ∃ e after, program session = (.error e, after)

variable {pre : D → Prop} {post : A → D → Prop} {allowed : Prop}

/-- A value is returned. -/
theorem returns_pure {a : A} (h : ∀ db, pre db → post a db) : Returns allowed pre (pure a : SessionM D Q E A) post :=
  fun session hpre => .inl ⟨a, session, rfl, h _ hpre⟩

/-- A query is answered. -/
theorem returns_read (h : ∀ db, pre db → post (f db) db) : Returns allowed pre (read f : SessionM D Q E A) post :=
  fun session hpre => .inl ⟨f session.db, session, rfl, h _ hpre⟩

/-- Programs that return, in sequence. -/
theorem returns_bind (mid : A → D → Prop) (hprogram : Returns allowed pre program mid)
    (hnext : ∀ a, Returns allowed (mid a) (next a) final) : Returns allowed pre (program >>= next) final := by
  intro session hpre
  rcases hprogram session hpre with ⟨a, between, hfirst, hmid⟩ | ⟨hnot, e, after, hfirst⟩
  · rw [bind_ok hfirst]
    exact hnext a between hmid
  · exact .inr ⟨hnot, e, after, bind_error hfirst⟩

/-- A choice of programs that return under their condition. -/
theorem returns_ite [Decidable c] {first second : SessionM D Q E A} (hfirst : c → Returns allowed pre first post)
    (hsecond : ¬c → Returns allowed pre second post) : Returns allowed pre (if c then first else second) post := by
  split_ifs with hc
  · exact hfirst hc
  · exact hsecond hc

/-- The rule of consequence for programs that return. -/
theorem returns_mono (h : Returns allowed pre' program post') (hpre : ∀ db, pre db → pre' db)
    (hpost : ∀ a db, post' a db → post a db) : Returns allowed pre program post := by
  intro session hsession
  refine (h session (hpre _ hsession)).imp_left ?_
  rintro ⟨a, after, hrun, ha⟩
  exact ⟨a, after, hrun, hpost a _ ha⟩

/-- What the precondition says regardless of the content may be assumed. -/
theorem returns_of_fact (hfact : ∀ db, pre db → fact)
    (h : fact → Returns allowed pre program post) : Returns allowed pre program post :=
  fun session hsession => h (hfact _ hsession) session hsession

/-- A program may be proved for each content it can start from. -/
theorem returns_at (h : ∀ start, pre start → Returns allowed (fun db => db = start) program post) :
    Returns allowed pre program post :=
  fun session hsession => h session.db hsession session rfl

/-- What a program ensures when it returns holds of what it returns. -/
theorem returns_ensures (h : Returns allowed pre program post)
    (hensures : Ensures pre program post') : Returns allowed pre program fun a db => post a db ∧ post' a db := by
  intro session hsession
  refine (h session hsession).imp_left ?_
  rintro ⟨a, after, hrun, ha⟩
  exact ⟨a, after, hrun, ha, hensures session hsession a after hrun⟩

/-- A statement that keeps the constraint takes effect. -/
theorem returns_issue [Statements D Q] {post : Unit → D → Prop}
    (hkeeps : ∀ db, pre db → allowed → Statements.violates Q (Statements.effect statement db) = false)
    (h : ∀ db, pre db → post () (Statements.effect statement db)) :
    Returns allowed pre (issue onReject statement) post := by
  intro session hpre
  by_cases hrejected : Statements.violates Q (Statements.effect statement session.db) = true
  · refine .inr ⟨fun hallowed => ?_, onReject, _, if_pos hrejected⟩
    rw [hkeeps _ hpre hallowed] at hrejected
    cases hrejected
  · exact .inl ⟨(), _, if_neg hrejected, h _ hpre⟩

/-- A program that is allowed to succeed does. -/
theorem Returns.ok (h : Returns allowed pre program post) (hallowed : allowed) {session : Session D Q}
    (hpre : pre session.db) : ∃ a after, program session = (.ok a, after) ∧ post a after.db :=
  (h session hpre).resolve_right fun hnot => hnot.1 hallowed

end Totality

end SessionM

end Conveyor.Lib
