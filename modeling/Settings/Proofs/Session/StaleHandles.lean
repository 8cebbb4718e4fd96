import Settings.Proofs.Session.LiveHandles

/-!
# Freed handles

A request that is given live handles is answered (`Request.answer_of_live`). The other way round, a
request that ends in a fault was given the handle of a freed entry, and the fault names it: nothing
that the table finds out on its own way ever ends in a fault (`Request.stale_of_fault`). The same
holds of registering a function.
-/

set_option autoImplicit false

namespace Settings

variable {ε α β : Type} {t : Table} {s : Store} {id : EntryId}

/-! ## Faults of outcomes -/

/-- A fault is that the handle is one of a freed entry. -/
def Attempt.FaultsAt (r : Attempt ε α) (id : EntryId) : Prop :=
  ∀ x, r = .error (.fault x) → x = .staleHandle id

namespace Attempt

theorem FaultsAt.stale : FaultsAt (.error (.fault (.staleHandle id)) : Attempt ε α) id := by
  intro x hx
  simpa using hx.symm

theorem Faultless.faultsAt {r : Attempt ε α} (h : r.Faultless) : r.FaultsAt id :=
  fun x hx => absurd hx (h x)

end Attempt

namespace Edit

/-- Whatever an edit does after it has looked at the entry of a freed handle. -/
theorem faultsAt_liveEntry (hn : t.get? id = none) (k : Entry → Edit ε α) :
    ((look (·.liveEntry id) >>= k).run t).1.FaultsAt id := by
  rw [look_bind_error _ t (Table.liveEntry_eq_error hn)]
  exact .stale

theorem faultsAt_refuseIf {c : Prop} [Decidable c] {e : ε} {k : Unit → Edit ε α}
    (h : ((k ()).run t).1.FaultsAt id) : ((refuseIf c e >>= k).run t).1.FaultsAt id := by
  by_cases hc : c
  · rw [refuseIf_bind_pos t hc]
    exact (Attempt.Faultless.error e).faultsAt
  · rwa [refuseIf_bind_neg t hc]

end Edit

namespace Table

open Edit

theorem bind_liveEntry_eq_error (hn : t.get? id = none) (k : Entry → Attempt ε α) :
    (t.liveEntry id >>= k) = .error (.fault (.staleHandle id)) := by
  rw [liveEntry_eq_error hn]
  rfl

theorem bind_entry_eq_error (hn : t.get? id = none) (k : Entry → Except Fault α) :
    (t.entry id >>= k) = .error (.staleHandle id) := by
  rw [entry_eq_error hn]
  rfl

theorem insert_faultsAt (hn : t.get? id = none) (e : Entry) (builtin : Bool) :
    ((insert id e builtin).run t).1.FaultsAt id := by
  refine faultsAt_refuseIf ?_
  have hfree : t.requireFree id e.name = .error (.fault (.staleHandle id)) := by
    unfold requireFree scopeBody
    rw [bind_liveEntry_eq_error hn]
    rfl
  rw [discard_look_bind_error t _ hfree]
  exact .stale

theorem chain_eq_error (hn : t.get? id = none) : t.chain id = .error (.staleHandle id) :=
  bind_entry_eq_error hn _

theorem lookup?_of_stale (hn : t.get? id = none) (name : String) (enclosing : Bool) :
    t.lookup? id name enclosing = if name = "" then .ok (some id) else .error (.staleHandle id) := by
  unfold lookup?
  split
  · rfl
  · split
    · rw [chain_eq_error hn]
      rfl
    · exact bind_entry_eq_error hn _

theorem lookupPath?_of_stale (hn : t.get? id = none) (path : String) :
    (∃ found, t.lookupPath? id path = .ok found) ∨
      t.lookupPath? id path = .error (.staleHandle id) := by
  unfold lookupPath?
  split
  · exact Or.inl ⟨_, rfl⟩
  · split
    · exact Or.inl ⟨_, rfl⟩
    · rename_i first names _
      rw [lookup?_of_stale hn]
      split
      · -- the empty name is the freed entry itself, and the next name is looked for in it
        cases names with
        | nil => exact Or.inl ⟨_, rfl⟩
        | cons name names =>
          refine Or.inr ?_
          show (t.find? id name >>= _) = _
          unfold find?
          rw [bind_entry_eq_error hn]
          rfl
      · exact Or.inr rfl

theorem clone_faultsAt (hn : t.get? id = none) :
    ((clone id : Edit ε EntryId).run t).1.FaultsAt id := by
  have hrun : (clone id : Edit ε EntryId).run t =
      (cloneWithin (t.slots.size + 1) none id).run t := look_bind_ok _ t rfl
  rw [hrun, cloneWithin]
  exact faultsAt_liveEntry hn _

theorem convert_faultsAt (hn : t.get? id = none) (s : Store) (p : Param) :
    (t.convert s p id).FaultsAt id := by
  cases p with
  | value type =>
    show Attempt.FaultsAt (t.liveEntry id >>= _) id
    rw [bind_liveEntry_eq_error hn]
    exact .stale
  | entry => exact (Attempt.Faultless.ok id).faultsAt

theorem onEntry_faultsAt (hn : t.get? id = none) (s : Store)
    (f : Entry → Store → Except ε α × Entry × Store) : (t.onEntry s id f).1.FaultsAt id := by
  unfold onEntry
  rw [hn]
  exact .stale

theorem register_faultsAt (hn : t.get? id = none) (s : Store) (name description : String)
    (content : Content) : (t.register s id name description content).1.FaultsAt id := by
  have hinsert := insert_faultsAt hn (entryOf name description content) false
  unfold register
  rcases hrun : (insert id (entryOf name description content) false).run t with ⟨outcome, u⟩
  rw [hrun] at hinsert
  cases outcome with
  | ok id => exact (Attempt.Faultless.ok id).faultsAt
  | error x => exact fun y hy => hinsert y (congrArg Except.error (Except.error.inj hy))

end Table

/-! ## Requests -/

namespace Request

theorem fault_of_done {r : Attempt Empty α × Table} {x : Fault} (h : answer.done s r = .error x) :
    r.1 = .error (.fault x) := by
  obtain ⟨outcome, t⟩ := r
  cases outcome with
  | ok a => cases h
  | error y =>
    cases y with
    | error e => exact e.elim
    | fault y => rw [Except.error.inj h]

theorem fault_of_settle {r : Attempt ε α} {f : Except ε α → β} {x : Fault}
    (h : r.settle.map f = .error x) : r = .error (.fault x) := by
  cases r with
  | ok a => cases h
  | error y =>
    cases y with
    | error e => cases h
    | fault y => rw [Except.error.inj h]

/-- A request that is given one handle, that of a freed entry. -/
theorem fault_of_stale {r : Request} (hr : r.handles = [id]) (hn : t.get? id = none) {x : Fault}
    (h : r.answer t s = .error x) : x = .staleHandle id := by
  have walk : ∀ {γ : Type} {y : Except Fault γ} {f : γ → r.Reply × Table × Store},
      y = .error (.staleHandle id) → y.map f = .error x → x = .staleHandle id := by
    rintro γ _ f rfl h
    exact (Except.error.inj h).symm
  cases r with
  | size | contains | makeTemp | copy | attach => cases hr
  | find =>
    cases hr
    exact walk (Table.bind_entry_eq_error hn _) h
  | lookup _ name enclosing =>
    cases hr
    have hlookup := Table.lookup?_of_stale hn name enclosing
    split at hlookup
    · simp [answer, hlookup, Except.map] at h
    · exact walk hlookup h
  | lookupPath _ path =>
    cases hr
    rcases Table.lookupPath?_of_stale hn path with ⟨found, hfound⟩ | hstale
    · simp [answer, hfound, Except.map] at h
    · exact walk hstale h
  | snapshot =>
    cases hr
    exact walk (Table.bind_entry_eq_error hn _) h
  | readNumber =>
    cases hr
    have hfault := fault_of_settle h
    rw [Table.readNumber, Table.bind_liveEntry_eq_error hn] at hfault
    exact Attempt.FaultsAt.stale x hfault
  | readText =>
    cases hr
    have hfault := fault_of_settle h
    rw [Table.readText, Table.bind_liveEntry_eq_error hn] at hfault
    exact Attempt.FaultsAt.stale x hfault
  | convert p =>
    cases hr
    exact Table.convert_faultsAt hn s p x (fault_of_settle h)
  | writeNumber _ number =>
    cases hr
    exact Table.onEntry_faultsAt hn s (Entry.writeNumber number) x (fault_of_settle h)
  | writeText _ text =>
    cases hr
    exact Table.onEntry_faultsAt hn s (Entry.writeText text) x (fault_of_settle h)
  | assign =>
    cases hr
    have hstale := h.symm.trans (Table.bind_entry_eq_error hn _)
    exact Except.error.inj hstale
  | edit =>
    cases hr
    exact Edit.faultsAt_liveEntry hn _ x (fault_of_done h)
  | updateDefault =>
    cases hr
    exact Edit.faultsAt_liveEntry hn _ x (fault_of_done h)
  | release =>
    cases hr
    exact Edit.faultsAt_liveEntry hn _ x (fault_of_settle h)
  | releaseIfTemporary =>
    cases hr
    have hrelease : (Table.release id).run t = (.error (.fault (.staleHandle id)), t) :=
      Edit.look_bind_error _ t (Table.liveEntry_eq_error hn)
    have hrun : (Table.releaseIfTemporary id : Edit Empty Bool).run t =
        (.error (.fault (.staleHandle id)), t) :=
      Edit.bind_error _ (by rw [Edit.run_settle, hrelease]; rfl)
    have hfault := fault_of_done h
    rw [hrun] at hfault
    exact Attempt.FaultsAt.stale x hfault
  | clone =>
    cases hr
    exact Table.clone_faultsAt hn x (fault_of_done h)
  | rename =>
    cases hr
    exact Edit.faultsAt_refuseIf (Edit.faultsAt_liveEntry hn _) x (fault_of_settle h)
  | remove =>
    cases hr
    exact Edit.faultsAt_refuseIf (Edit.faultsAt_liveEntry hn _) x (fault_of_settle h)
  | register _ name description content =>
    cases hr
    exact Table.register_faultsAt hn s name description content x (fault_of_settle h)

/-- A request that ends in a fault was given the handle of a freed entry, and that is the fault. -/
theorem stale_of_fault (h : t.Sound) {r : Request} {x : Fault} (hr : r.answer t s = .error x) :
    ∃ id ∈ r.handles, t.get? id = none ∧ x = .staleHandle id := by
  obtain ⟨id, hid, hn⟩ : ∃ id ∈ r.handles, t.get? id = none := by
    by_contra hno
    obtain ⟨a, ha⟩ := answer_of_live h s r fun id hid => by
      cases live : t.get? id with
      | none => exact absurd ⟨id, hid, live⟩ hno
      | some e => exact Table.contains_iff.mpr ⟨e, live⟩
    rw [hr] at ha
    cases ha
  have single : ∀ {other : EntryId}, r.handles = [other] →
      ∃ id ∈ r.handles, t.get? id = none ∧ x = .staleHandle id := by
    intro other hother
    obtain rfl := List.mem_singleton.mp (hother ▸ hid)
    exact ⟨id, hid, hn, fault_of_stale hother hn hr⟩
  cases r with
  | size | contains | makeTemp => exact absurd hid (by simp [handles])
  | copy target source =>
    cases lsource : t.get? source with
    | none =>
      have hcopy : t.copy s target source = .error (.staleHandle source) := by
        unfold Table.copy Table.snapshot?
        rw [Table.bind_entry_eq_error lsource]
        rfl
      exact ⟨source, by simp [handles], lsource, Except.error.inj (hr.symm.trans hcopy)⟩
    | some e =>
      -- then it is the target that is freed
      have ltarget : t.get? target = none := by
        rcases List.mem_cons.mp hid with rfl | hid
        · exact hn
        · rw [List.mem_singleton.mp hid, lsource] at hn
          cases hn
      refine ⟨target, by simp [handles], ltarget, ?_⟩
      have hcopy : t.copy s target source = .error x := hr
      unfold Table.copy Table.snapshot? at hcopy
      rw [Table.entry_eq_ok.mpr lsource] at hcopy
      simp only [bind, Except.bind, pure, Except.pure] at hcopy
      cases hvalue : e.snapshot s with
      | none =>
        rw [hvalue] at hcopy
        cases hcopy
      | some value =>
        rw [hvalue] at hcopy
        exact Except.error.inj (hcopy.symm.trans (Table.bind_entry_eq_error ltarget _))
  | attach scope id' =>
    cases lid : t.get? id' with
    | none =>
      have hfaults : ((Table.attach scope id').run t).1.FaultsAt id' :=
        Edit.faultsAt_refuseIf (Edit.faultsAt_liveEntry lid _)
      exact ⟨id', by simp [handles], lid, hfaults x (fault_of_settle hr)⟩
    | some e =>
      have lscope : t.get? scope = none := by
        rcases List.mem_cons.mp hid with rfl | hid
        · exact hn
        · rw [List.mem_singleton.mp hid, lid] at hn
          cases hn
      have hfaults : ((Table.attach scope id').run t).1.FaultsAt scope := by
        refine Edit.faultsAt_refuseIf ?_
        rw [Edit.look_bind_ok _ t (Table.liveEntry_eq_ok.mpr lid)]
        refine Edit.faultsAt_refuseIf (Edit.faultsAt_refuseIf ?_)
        rw [Edit.look_bind_error _ t (congrArg Attempt.ofFault (Table.chain_eq_error lscope))]
        exact .stale
      exact ⟨scope, by simp [handles], lscope, hfaults x (fault_of_settle hr)⟩
  | find | lookup | lookupPath | readNumber | readText | snapshot | convert | writeNumber
  | writeText | assign | edit | updateDefault | release | releaseIfTemporary | clone | rename
  | remove | register => exact single rfl

end Request

theorem Table.Sound.define_faultsAt (h : t.Sound) (scope : EntryId) (name : String) (f : Function)
    (description : String) (builtin : Bool) :
    ((Table.define scope name f description builtin).run t).1.FaultsAt scope := by
  cases live : t.get? scope with
  | none => exact Table.insert_faultsAt live _ builtin
  | some p => exact (Table.insert_faultless h.slots live _ builtin).faultsAt

end Settings
