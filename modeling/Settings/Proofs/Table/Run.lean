import Settings.Proofs.Table.Slots
import Settings.Table.Values

/-!
# Running edits

An edit is a row of looks, checks and changes, and the first lemmas run it one step at a time.

`Edit.Atomic m t P` says how an edit may end on a table: refused with the table as it was, or done
with a result and a table of which `P` holds. An edit that checks before it changes is shown to be
atomic by following its steps, with the lemmas of the last section.
-/

set_option autoImplicit false

namespace Settings

namespace Edit

variable {ε δ α β : Type}

theorem run_pure (a : α) (t : Table) : (pure a : Edit ε α).run t = (.ok a, t) := rfl

theorem run_throw (x : Failure ε) (t : Table) : (throw x : Edit ε α).run t = (.error x, t) := rfl

theorem run_look (f : Table → Attempt ε α) (t : Table) : (look f).run t = (f t, t) := rfl

theorem run_change (f : Table → Table) (t : Table) :
    (change f : Edit ε Unit).run t = (.ok (), f t) := rfl

theorem run_alloc (e : Entry) (t : Table) :
    (alloc e : Edit ε EntryId).run t = (.ok (t.alloc e).1, (t.alloc e).2) := rfl

theorem run_settle (m : Edit ε α) (t : Table) :
    (m.settle : Edit δ (Except ε α)).run t = (.ofFault (m.run t).1.settle, (m.run t).2) := rfl

theorem run_bind (m : Edit ε α) (f : α → Edit ε β) (t : Table) :
    (m >>= f).run t = match m.run t with
      | (.ok a, t) => (f a).run t
      | (.error x, t) => (.error x, t) := by
  unfold run ExceptT.run StateT.run
  simp only [bind, ExceptT.bind, ExceptT.mk, StateT.bind]
  cases m t with
  | mk outcome t => cases outcome <;> rfl

/-! ### One step, then the rest -/

section

variable (f : α → Edit ε β) (t : Table)

theorem bind_ok {m : Edit ε α} {t t' : Table} {a : α} (h : m.run t = (.ok a, t')) :
    (m >>= f).run t = (f a).run t' := by
  rw [run_bind, h]

theorem bind_error {m : Edit ε α} {t t' : Table} {x : Failure ε} (h : m.run t = (.error x, t')) :
    (m >>= f).run t = (.error x, t') := by
  rw [run_bind, h]

theorem look_bind_ok {g : Table → Attempt ε α} {a : α} (h : g t = .ok a) :
    (look g >>= f).run t = (f a).run t := bind_ok f (by rw [run_look, h])

theorem look_bind_error {g : Table → Attempt ε α} {x : Failure ε} (h : g t = .error x) :
    (look g >>= f).run t = (.error x, t) := bind_error f (by rw [run_look, h])

theorem change_bind (g : Table → Table) (k : Unit → Edit ε β) :
    (change g >>= k).run t = (k ()).run (g t) := bind_ok k (run_change g t)

theorem alloc_bind (e : Entry) (k : EntryId → Edit ε β) :
    (alloc e >>= k).run t = (k (t.alloc e).1).run (t.alloc e).2 := bind_ok k (run_alloc e t)

theorem refuseIf_bind_pos {c : Prop} [Decidable c] (h : c) (e : ε) (k : Unit → Edit ε β) :
    (refuseIf c e >>= k).run t = (.error (.error e), t) := by
  rw [refuseIf, if_pos h]
  exact bind_error k (run_throw _ _)

theorem refuseIf_bind_neg {c : Prop} [Decidable c] (h : ¬ c) (e : ε) (k : Unit → Edit ε β) :
    (refuseIf c e >>= k).run t = (k ()).run t := by
  rw [refuseIf, if_neg h]
  exact bind_ok k (run_pure _ _)

theorem discard_look_bind_ok {g : Table → Attempt ε α} {a : α} (k : Unit → Edit ε β)
    (h : g t = .ok a) : (discard (look g) >>= k).run t = (k ()).run t := by
  apply bind_ok k
  show (look g >>= fun _ => pure ()).run t = _
  rw [look_bind_ok _ _ h, run_pure]

theorem discard_look_bind_error {g : Table → Attempt ε α} {x : Failure ε} (k : Unit → Edit ε β)
    (h : g t = .error x) : (discard (look g) >>= k).run t = (.error x, t) := by
  apply bind_error k
  show (look g >>= fun _ => pure ()).run t = _
  rw [look_bind_error _ _ h]

theorem forM_nil (g : α → Edit ε Unit) : (([] : List α).forM g).run t = (.ok (), t) := rfl

theorem forM_cons (a : α) (as : List α) (g : α → Edit ε Unit) :
    ((a :: as).forM g).run t = (g a >>= fun _ => as.forM g).run t := rfl

end

/-! ### Refused or done -/

/-- The edit is refused and leaves the table as it is, or is done with an outcome that is told. -/
def Atomic (m : Edit ε α) (t : Table) (P : α → Table → Prop) : Prop :=
  (∃ x, m.run t = (.error x, t)) ∨ ∃ a t', m.run t = (.ok a, t') ∧ P a t'

variable {m : Edit ε α} {t : Table} {P : α → Table → Prop}

theorem Atomic.done {a : α} {t' : Table} (h : m.run t = (.ok a, t')) (hP : P a t') : m.Atomic t P :=
  Or.inr ⟨a, t', h, hP⟩

theorem Atomic.refused {x : Failure ε} (h : m.run t = (.error x, t)) : m.Atomic t P :=
  Or.inl ⟨x, h⟩

/-- Whether refused or done, the edit keeps what holds of the table. -/
theorem Atomic.keeps {I : Table → Prop} (h : m.Atomic t P) (ht : I t) (hP : ∀ a t', P a t' → I t') :
    I (m.run t).2 := by
  rcases h with ⟨x, hx⟩ | ⟨a, t', hrun, hPa⟩
  · rw [hx]
    exact ht
  · rw [hrun]
    exact hP a t' hPa

/-- An edit that ended with a value was not refused. -/
theorem Atomic.of_ok (h : m.Atomic t P) {a : α} {t' : Table} (hrun : m.run t = (.ok a, t')) :
    P a t' := by
  rcases h with ⟨x, hx⟩ | ⟨b, u, hu, hP⟩
  · exact absurd (congrArg Prod.fst (hx.symm.trans hrun)) (by simp)
  · obtain ⟨hb, rfl⟩ := Prod.mk.inj (hu.symm.trans hrun)
    obtain rfl := Except.ok.inj hb
    exact hP

/-- The table after an edit that did not end with a value is the one before. -/
theorem Atomic.unchanged (h : m.Atomic t P) {x : Failure ε} (hx : (m.run t).1 = .error x) :
    (m.run t).2 = t := by
  rcases h with ⟨y, hy⟩ | ⟨a, t', hrun, _⟩
  · rw [hy]
  · rw [hrun] at hx
    exact absurd hx (by simp)

section

variable {k : α → Edit ε β} {u : Unit → Edit ε β} {R : β → Table → Prop}

theorem Atomic.refuseIf_bind {c : Prop} [Decidable c] {e : ε} (h : ¬ c → (u ()).Atomic t R) :
    (refuseIf c e >>= u).Atomic t R := by
  by_cases hc : c
  · exact .refused (refuseIf_bind_pos t hc e u)
  · rcases h hc with ⟨x, hx⟩ | ⟨a, t', hrun, hR⟩
    · exact .refused ((refuseIf_bind_neg t hc e u).trans hx)
    · exact .done ((refuseIf_bind_neg t hc e u).trans hrun) hR

theorem Atomic.look_bind {g : Table → Attempt ε α} (h : ∀ a, g t = .ok a → (k a).Atomic t R) :
    (look g >>= k).Atomic t R := by
  cases hg : g t with
  | error x => exact .refused (look_bind_error k t hg)
  | ok a =>
    rcases h a hg with ⟨x, hx⟩ | ⟨b, t', hrun, hR⟩
    · exact .refused ((look_bind_ok k t hg).trans hx)
    · exact .done ((look_bind_ok k t hg).trans hrun) hR

theorem Atomic.discard_look_bind {g : Table → Attempt ε α}
    (h : ∀ a, g t = .ok a → (u ()).Atomic t R) : (discard (look g) >>= u).Atomic t R := by
  cases hg : g t with
  | error x => exact .refused (discard_look_bind_error t u hg)
  | ok a =>
    rcases h a hg with ⟨x, hx⟩ | ⟨b, t', hrun, hR⟩
    · exact .refused ((discard_look_bind_ok t u hg).trans hx)
    · exact .done ((discard_look_bind_ok t u hg).trans hrun) hR

/-- An atomic edit followed by one that is not refused then. -/
theorem Atomic.bind (h : m.Atomic t P)
    (hk : ∀ a t', P a t' → ∃ b t'', (k a).run t' = (.ok b, t'') ∧ R b t'') :
    (m >>= k).Atomic t R := by
  rcases h with ⟨x, hx⟩ | ⟨a, t', hrun, hP⟩
  · exact .refused (bind_error k hx)
  · obtain ⟨b, t'', hrun', hR⟩ := hk a t' hP
    exact .done ((bind_ok k hrun).trans hrun') hR

end

end Edit

end Settings
