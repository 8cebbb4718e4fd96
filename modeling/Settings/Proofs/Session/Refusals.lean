import Settings.Proofs.Session.Runs
import Settings.Script

/-!
# Refusals

Whatever says no has done nothing: no slot, list, index or host variable differs from before. For a
request this is `Request.answer_refused`. Here it is stated of everything that can say no, in every
table that a host can come to, assignments of scripts included.

A registration decides without looking at the setter of a link, so a setter that no refused
registration could tell from another is one that it does not call.
-/

set_option autoImplicit false

namespace Settings

/-! ## Assignments of scripts -/

namespace Action

variable {ε α β : Type}

theorem run_bind (m : Action ε α) (f : α → Action ε β) (s : Session) :
    (m >>= f).run s = match m.run s with
      | (.ok a, s) => (f a).run s
      | (.error x, s) => (.error x, s) := by
  unfold run ExceptT.run StateT.run
  simp only [bind, ExceptT.bind, ExceptT.mk, StateT.bind]
  cases m s with
  | mk outcome s => cases outcome <;> rfl

theorem bind_ok {m : Action ε α} (f : α → Action ε β) {s s' : Session} {a : α}
    (h : m.run s = (.ok a, s')) : (m >>= f).run s = (f a).run s' := by
  rw [run_bind, h]

theorem bind_error {m : Action ε α} (f : α → Action ε β) {s s' : Session} {x : Failure ε}
    (h : m.run s = (.error x, s')) : (m >>= f).run s = (.error x, s') := by
  rw [run_bind, h]

theorem run_fail (e : ε) (s : Session) : (fail e : Action ε α).run s = (.error (.error e), s) := rfl

/-- A row of steps that ends with a value has ended its first step with one. -/
theorem of_bind_ok {m : Action ε α} {f : α → Action ε β} {s s' : Session} {b : β}
    (h : (m >>= f).run s = (.ok b, s')) :
    ∃ a s₁, m.run s = (.ok a, s₁) ∧ (f a).run s₁ = (.ok b, s') := by
  rw [run_bind] at h
  rcases hm : m.run s with ⟨outcome, s₁⟩
  rw [hm] at h
  cases outcome with
  | ok a => exact ⟨a, s₁, rfl, h⟩
  | error x => exact absurd (congrArg Prod.fst h) (by simp)

/-- An error leaves the session as it is. -/
def Refuses (m : Action ε α) (s : Session) : Prop :=
  ∀ x, (m.run s).1 = .error x → (m.run s).2 = s

variable {s : Session}

theorem Refuses.fail (e : ε) : (fail e : Action ε α).Refuses s := fun _ _ => rfl

theorem Refuses.fail_bind (e : ε) (f : α → Action ε β) : (Action.fail e >>= f).Refuses s :=
  fun _ _ => by rw [bind_error f (run_fail e s)]

/-- What only looks may come before what leaves the session as it is. -/
theorem Refuses.bind {m : Action ε α} {f : α → Action ε β} (hm : (m.run s).2 = s)
    (hf : ∀ a, (m.run s).1 = .ok a → (f a).Refuses s) : (m >>= f).Refuses s := by
  intro x hx
  rcases hr : m.run s with ⟨outcome, s'⟩
  obtain rfl : s' = s := by rwa [hr] at hm
  cases outcome with
  | error y => rw [bind_error f hr]
  | ok a =>
    rw [bind_ok f hr] at hx ⊢
    exact hf a (by rw [hr]) x hx

end Action

namespace Session

variable {s : Session}

/-- A reply that is an error leaves the session as it is. -/
theorem refuses_orFail_ask {ε δ α : Type} (g : ε → δ) (h : s.table.Sound) {r : Request}
    (reply : r.Reply → Except ε α) (hr : ∀ x e, reply x = .error e → r.refused x = true) :
    (do (Action.orFail (reply (← ask r))).mapError g : Action δ α).Refuses s := by
  intro x hx
  have same := ask_unchanged (ε := δ) (s := s) (r := r)
  rcases hrun : (ask r : Action δ r.Reply).run s with ⟨outcome, s'⟩
  rw [hrun] at same
  cases outcome with
  | error y =>
    rw [Action.bind_error _ hrun]
    apply same
    intro reply t st ha
    rw [run_ask, ha] at hrun
    exact absurd (congrArg Prod.fst hrun) (by simp)
  | ok a =>
    rw [Action.bind_ok _ hrun] at hx ⊢
    cases ha : reply a with
    | ok v =>
      rw [ha] at hx
      exact absurd (show (Except.ok v : Attempt δ α) = .error x from hx) (by simp)
    | error e =>
      apply same
      intro a' t st hanswer
      rw [run_ask, hanswer] at hrun
      obtain rfl : a' = a := Except.ok.inj (congrArg Prod.fst hrun)
      exact Request.answer_refused h hanswer (hr a' e ha)

theorem refuses_assign (h : s.table.Sound) (scope : EntryId) (assignment : String) :
    (assign scope assignment).Refuses s := by
  unfold assign
  cases hsplit : splitFirst? '=' assignment with
  | none => exact .fail _
  | some parts =>
    obtain ⟨left, right⟩ := parts
    refine .bind (ask_unchanged fun _ _ _ hr => (Request.map_eq_ok hr).2) ?_
    intro found _
    cases found with
    | none => exact .fail _
    | some id =>
      refine .bind rfl ?_
      intro e _
      by_cases hscalar : (!e.isScalar) = true
      · simp only [hscalar]
        exact .fail_bind _ _
      · simp only [hscalar]
        refine refuses_orFail_ask (r := .writeText id (trim right)) ScriptError.entry h (fun reply
          => reply) ?_
        intro x e hx
        rw [hx]
        rfl

end Session

/-! ## Everything that can say no -/

namespace Table

variable {t t' : Table} {s s' : Store}

theorem copyLive_refused {target source : EntryId}
    (hr : t.copyLive s target source = .ok (false, t', s')) : t' = t ∧ s' = s := by
  obtain ⟨e, -, htry⟩ := copyLive_eq_ok hr
  exact tryOn_refused (fun _ _ => Entry.copyFrom_refused) htry

/-- A link that is refused with one setter is refused with every other one, and writes nothing. -/
theorem register_error_of_setter (h : t.SlotsOk) {scope : EntryId} {name description : String}
    {a : Accessor} {default : a.type.Carrier} {x : Failure TreeError}
    (hx : (t.register s scope name description (.linked (.accessor a) default)).1 = .error x)
    (setter : a.type.Carrier → Store → Store) :
    t.register s scope name description (.linked (.accessor ⟨a.type, a.get, setter⟩) default) =
      (.error x, t, s) := by
  have hinsert : ((insert scope (entryOf name description (.linked (.accessor a) default))
      false).run t).1 = .error x := by
    unfold register at hx
    split at hx
    · exact absurd hx (by simp)
    · rename_i hrun
      rw [hrun]
      exact hx
  have hname :
      (entryOf name description (.linked (.accessor ⟨a.type, a.get, setter⟩) default)).name =
        (entryOf name description (.linked (.accessor a) default)).name := rfl
  have hother := insert_error_of_name h hname hinsert
  unfold register
  rw [hother]

/-- Whatever says no leaves the table and the host variables as they are. A link that is refused
does not call its setter. -/
theorem refusal_changes_nothing (h : t.Reachable) (s : Store) :
    (∀ (r : Request) (reply : r.Reply) (t' : Table) (s' : Store),
      r.answer t s = .ok (reply, t', s') → r.refused reply = true → t' = t ∧ s' = s) ∧
    (∀ scope name f description builtin x,
      ((define scope name f description builtin).run t).1 = .error x →
        ((define scope name f description builtin).run t).2 = t) ∧
    (∀ scope name description (a : Accessor) (default : a.type.Carrier) x,
      (t.register s scope name description (.linked (.accessor a) default)).1 = .error x →
        ∀ setter, t.register s scope name description
          (.linked (.accessor ⟨a.type, a.get, setter⟩) default) = (.error x, t, s)) ∧
    (∀ target source t' s', t.copyLive s target source = .ok (false, t', s') →
      t' = t ∧ s' = s) ∧
    ∀ session : Session, session.table = t → session.store = s → ∀ scope assignment x,
      ((Session.assign scope assignment).run session).1 = .error x →
        ((Session.assign scope assignment).run session).2 = session := by
  have sound := h.sound
  refine ⟨fun r reply t' s' hr hrefused => Request.answer_refused sound hr hrefused,
    ?_,
    fun scope name description a default x hx setter =>
      register_error_of_setter sound.slots hx setter,
    fun target source t' s' hr => copyLive_refused hr,
    ?_⟩
  · intro scope name f description builtin x hx
    exact (insert_atomic sound.slots scope _ builtin).unchanged hx
  · intro session ht _ scope assignment x hx
    exact Session.refuses_assign (ht ▸ sound) scope assignment x hx

/-- The name is taken, so the link is refused and its variable keeps the value. -/
theorem refused_link_changes_nothing :
    let s : Store := ⟨#[⟨⟨.text, "old"⟩, []⟩]⟩
    let t := ((Session.fresh "root" "").after [.ask (.register root "label" "" .text)]).table
    let r : Request := .register root "label" "" (.linked (.var .text ⟨0⟩) "new")
    t.Reachable ∧ ∃ reply t' s', r.answer t s = .ok (reply, t', s') ∧ r.refused reply = true ∧
      t' = t ∧ s' = s := by
  intro s t r
  have h : t.Reachable := ⟨"root", "", _, rfl⟩
  have hno : (match r.answer t s with
      | .ok answer => r.refused answer.1
      | .error _ => false) = true := by decide +kernel
  cases hr : r.answer t s with
  | error x =>
    rw [hr] at hno
    exact absurd hno (by simp)
  | ok answer =>
    obtain ⟨reply, t', s'⟩ := answer
    rw [hr] at hno
    exact ⟨h, reply, t', s', rfl, hno, (refusal_changes_nothing h s).1 r reply t' s' hr hno⟩

end Table

end Settings
