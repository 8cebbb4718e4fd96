import Settings.Proofs.Session.Requests
import Settings.Proofs.Table.Walks

/-!
# Edits of live entries

An edit that is given live handles may be refused, but it does not fault: the handles that it finds
in the table on its way are live too, and its walks end. `Edit.Faultless m t` says so of one edit on
one table. The first section follows an edit step by step, like the lemmas for `Edit.Atomic`, and
the second goes through the edits.
-/

set_option autoImplicit false

namespace Settings

/-- An outcome that is a value or an error. -/
def Attempt.Faultless {ε α : Type} (r : Attempt ε α) : Prop := ∀ x, r ≠ .error (.fault x)

namespace Attempt

variable {ε α β : Type}

theorem Faultless.ok (a : α) : Attempt.Faultless (.ok a : Attempt ε α) := fun _ => by simp

theorem Faultless.error (e : ε) : Attempt.Faultless (.error (.error e) : Attempt ε α) :=
  fun _ => by simp

theorem Faultless.ofError (r : Except ε α) : Attempt.Faultless (.ofError r) := by
  cases r with
  | ok a => exact .ok a
  | error e => exact .error e

/-- Whether a failure is a fault does not hang on what was to be the value. -/
theorem Faultless.failure {r : Attempt ε α} (h : r.Faultless) {x : Failure ε} (hr : r = .error x) :
    Attempt.Faultless (.error x : Attempt ε β) := by
  intro y hy
  exact h y (by rw [hr, Except.error.inj hy])

/-- A value or an error can be set apart from faults. -/
theorem Faultless.exists_settle {r : Attempt ε α} (h : r.Faultless) :
    ∃ reply, r.settle = .ok reply := by
  cases r with
  | ok a => exact ⟨.ok a, rfl⟩
  | error x =>
    cases x with
    | error e => exact ⟨.error e, rfl⟩
    | fault y => exact absurd rfl (h y)

end Attempt

namespace Edit

variable {ε δ α β : Type}

def Faultless (m : Edit ε α) (t : Table) : Prop := (m.run t).1.Faultless

variable {t t' : Table} {m : Edit ε α} {k : α → Edit ε β} {u : Unit → Edit ε β}

theorem Faultless.of_run {r : Attempt ε α} (h : m.run t = (r, t')) (hr : r.Faultless) :
    m.Faultless t := by
  unfold Faultless
  rw [h]
  exact hr

theorem Faultless.pure (a : α) : (Pure.pure a : Edit ε α).Faultless t :=
  .of_run (run_pure a t) (.ok a)

theorem Faultless.change (g : Table → Table) : (Edit.change g : Edit ε Unit).Faultless t :=
  .of_run (run_change g t) (.ok ())

theorem Faultless.bind (h : m.Faultless t)
    (hk : ∀ a t', m.run t = (.ok a, t') → (k a).Faultless t') : (m >>= k).Faultless t := by
  rcases hm : m.run t with ⟨r, t'⟩
  cases r with
  | ok a => exact .of_run (bind_ok k hm) (hk a t' hm)
  | error x => exact .of_run (bind_error k hm) (h.failure (congrArg Prod.fst hm))

theorem Faultless.refuseIf_bind {c : Prop} [Decidable c] {e : ε} (h : ¬ c → (u ()).Faultless t) :
    (refuseIf c e >>= u).Faultless t := by
  by_cases hc : c
  · exact .of_run (refuseIf_bind_pos t hc e u) (.error e)
  · exact .of_run (refuseIf_bind_neg t hc e u) (h hc)

theorem Faultless.look_bind {g : Table → Attempt ε α} (hg : (g t).Faultless)
    (hk : ∀ a, g t = .ok a → (k a).Faultless t) : (look g >>= k).Faultless t :=
  .bind (.of_run (run_look g t) hg) fun a t' hrun => by
    obtain ⟨hok, rfl⟩ := Prod.mk.inj hrun
    exact hk a hok

theorem Faultless.discard_look_bind {g : Table → Attempt ε α} (hg : (g t).Faultless)
    (hk : ∀ a, g t = .ok a → (u ()).Faultless t) : (discard (look g) >>= u).Faultless t := by
  cases ha : g t with
  | ok a => exact .of_run (discard_look_bind_ok t u ha) (hk a ha)
  | error x => exact .of_run (discard_look_bind_error t u ha) (hg.failure ha)

theorem Faultless.settle (h : m.Faultless t) : (m.settle : Edit δ (Except ε α)).Faultless t := by
  obtain ⟨reply, hreply⟩ := h.exists_settle
  exact .of_run (run_settle m t) (by rw [hreply]; exact .ok reply)

end Edit

/-! ## The edits -/

namespace Table

open Edit

variable {ε : Type} {t : Table} {id scope : EntryId} {e p : Entry}

theorem liveEntry_faultless (live : t.get? id = some e) :
    (t.liveEntry id : Attempt ε Entry).Faultless := by
  rw [liveEntry_eq_ok.mpr live]
  exact .ok e

theorem scopeBody_faultless (live : t.get? scope = some p) : (t.scopeBody scope).Faultless := by
  unfold scopeBody
  rw [liveEntry_eq_ok.mpr live]
  simp only [bind, Except.bind]
  cases p.scope? with
  | none => exact .error (TreeError.notAScope p.name)
  | some b => exact .ok b

theorem requireFree_faultless (live : t.get? scope = some p) (name : String) :
    (t.requireFree scope name).Faultless := by
  unfold requireFree
  cases hb : t.scopeBody scope with
  | error x => exact (scopeBody_faultless live).failure hb
  | ok b =>
    simp only [bind, Except.bind]
    split
    · rw [liveEntry_eq_ok.mpr live]
      exact .error _
    · exact .ok b

/-- A new entry of a live scope. That the scope is still one once the entry is in its slot is part
of `run_insert`. -/
theorem insert_faultless (h : t.SlotsOk) (live : t.get? scope = some p) (e : Entry)
    (builtin : Bool) : (insert scope e builtin).Faultless t := by
  by_cases hname : e.name = ""
  · exact .of_run (refuseIf_bind_pos t hname _ _) (.error TreeError.emptyName)
  · cases hb : t.requireFree scope e.name with
    | ok b => exact .of_run (run_insert h builtin hname hb) (.ok _)
    | error x =>
      exact .of_run ((refuseIf_bind_neg t hname _ _).trans (discard_look_bind_error t _ hb))
        ((requireFree_faultless live e.name).failure hb)

theorem release_faultless (h : t.Sound) (live : t.get? id = some e) : (release id).Faultless t := by
  have hrun := run_release h live
  cases ht : e.temporary with
  | true => exact .of_run (hrun.trans (if_pos ht)) (.ok ())
  | false => exact .of_run (hrun.trans (if_neg (by simp [ht]))) (.error _)

theorem releaseIfTemporary_faultless (h : t.Sound) (live : t.get? id = some e) :
    (releaseIfTemporary id : Edit ε Bool).Faultless t := by
  unfold releaseIfTemporary
  exact (release_faultless h live).settle.bind fun a t' _ => .pure a.isOk

theorem clone_faultless (h : t.Sound) (live : t.get? id = some e) :
    (clone id : Edit ε EntryId).Faultless t := by
  obtain ⟨x, htree⟩ := h.exists_tree live
  obtain ⟨f, t', hrun, _⟩ := run_clone (ε := ε) h htree
  exact .of_run hrun (.ok _)

theorem attach_faultless (h : t.Sound) (live : t.get? id = some e) (lp : t.get? scope = some p) :
    (attach scope id).Faultless t := by
  obtain ⟨links, hchain, hlinks⟩ := h.exists_chain lp
  unfold attach
  refine .refuseIf_bind fun _ => .look_bind (liveEntry_faultless live) fun e' he' => ?_
  obtain rfl : e = e' := Option.mem_unique live (liveEntry_eq_ok.mp he')
  refine .refuseIf_bind fun _ => .refuseIf_bind fun _ => .look_bind ?_ fun links' hlinks' => ?_
  · rw [hchain]
    exact .ok links
  obtain rfl : links = links' := by simpa [hchain, Attempt.ofFault] using hlinks'
  refine .refuseIf_bind fun hcyc => .discard_look_bind (requireFree_faultless lp _) fun b hb => ?_
  obtain ⟨p', lp', hs, _⟩ := requireFree_eq_ok.mp hb
  have hne : scope ≠ id := by
    rintro rfl
    exact hcyc (hlinks.mem_iff.mpr .self)
  exact .of_run (run_place live lp' hs hne) (.ok ())

theorem relabel_faultless (h : t.Sound) (live : t.get? id = some e) (old name : String) :
    (relabel e.owner id old name).Faultless t := by
  unfold relabel
  cases ho : e.owner with
  | none => exact .pure ()
  | some owner =>
    obtain ⟨p, _, lp, _⟩ := h.owned id e owner live ho
    exact .look_bind (requireFree_faultless lp name) fun b _ => .change _

theorem rename_faultless (h : t.Sound) (live : t.get? id = some e) (name : String) :
    (rename id name).Faultless t := by
  unfold rename
  refine .refuseIf_bind fun _ => .look_bind (liveEntry_faultless live) fun e' he' => ?_
  obtain rfl : e = e' := Option.mem_unique live (liveEntry_eq_ok.mp he')
  split
  · exact .pure ()
  · exact (relabel_faultless h live e.name name).bind fun _ _ _ => .change _

theorem remove_faultless (h : t.Sound) (live : t.get? id = some e) : (remove id).Faultless t := by
  by_cases hroot : id = root
  · exact .of_run (refuseIf_bind_pos t hroot _ _) (.error TreeError.rootScope)
  · obtain ⟨x, htree⟩ := h.exists_tree live
    obtain ⟨u, t', hrun, _⟩ := h.run_remove live htree hroot
    exact .of_run hrun (.ok ())

theorem run_edit (live : t.get? id = some e) (change : HeaderEdit) :
    (edit id change : Edit ε Unit).run t = (.ok (), t.set id (e.edit change)) :=
  (look_bind_ok _ t (liveEntry_eq_ok.mpr live)).trans (run_change _ t)

theorem updateDefault_faultless (h : t.Sound) (live : t.get? id = some e) (s : Store) :
    (updateDefault s id : Edit ε Unit).Faultless t := by
  obtain ⟨x, htree⟩ := h.exists_tree live
  obtain ⟨t', hrun, _⟩ := records_updateDefault (ε := ε) htree s
  exact .of_run hrun (.ok ())

end Table
end Settings
