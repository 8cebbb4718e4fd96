import Settings.Proofs.Table.Copies
import Settings.Proofs.Table.Values
import Settings.Session.Basic

/-!
# What a request does

A request is answered by one function of the table, and this module carries what is known of those
functions over to the answers: the table after an answer is sound if the one before was, and an
answer that says no leaves the table and the host variables as they are.
-/

set_option autoImplicit false

namespace Settings

/-- Whether a reply says that the request was not done. -/
def Request.refused : (r : Request) → r.Reply → Bool
  | .readNumber _, reply => !Except.isOk reply
  | .readText _, reply => !Except.isOk reply
  | .convert _ _, reply => !Except.isOk reply
  | .writeNumber _ _, reply => !Except.isOk reply
  | .writeText _ _, reply => !Except.isOk reply
  | .assign _ _, reply => !reply
  | .copy _ _, reply => !reply
  | .release _, reply => !Except.isOk reply
  | .releaseIfTemporary _, reply => !reply
  | .attach _ _, reply => !Except.isOk reply
  | .rename _ _, reply => !Except.isOk reply
  | .remove _, reply => !Except.isOk reply
  | .register _ _ _ _, reply => !Except.isOk reply
  | .size, _ | .contains _, _ | .find _ _, _ | .lookup _ _ _, _ | .lookupPath _ _, _
  | .snapshot _, _ | .edit _ _, _ | .updateDefault _, _ | .makeTemp _, _ | .clone _, _ => false

namespace Table

open Edit

variable {ε α : Type} {t t' : Table} {s s' : Store}

/-! ## Edits that are part of others -/

theorem entryOf_body {name description : String} {content : Content} {b : ScopeBody}
    (h : (entryOf name description content).scope? = some b) : ∃ s, b = .empty s := by
  cases content with
  | scope structureType => exact ⟨structureType, (Option.some.inj h).symm⟩
  | number | text | linked target default =>
    exact absurd h (by simp [entryOf, Entry.scope?, Entry.new, storageOf])

theorem Sound.insert (h : t.Sound) (scope : EntryId) {e : Entry} (builtin : Bool)
    (hbody : ∀ b, e.scope? = some b → ∃ s, b = .empty s) :
    ((insert scope e builtin).run t).2.Sound :=
  (insert_atomic h.slots scope e builtin).keeps h fun _ _ hi => h.inserted hbody hi

theorem Sound.define (h : t.Sound) (scope : EntryId) (name : String) (f : Function)
    (description : String) (builtin : Bool) :
    ((define scope name f description builtin).run t).2.Sound :=
  h.insert scope builtin fun b hb => absurd hb (by simp [Entry.scope?, Entry.new])

/-- A registration is refused with nothing changed, or done, and then the default of a link is
written. -/
theorem register_cases (h : t.SlotsOk) (s : Store) (scope : EntryId) (name description : String)
    (content : Content) :
    (∃ x, t.register s scope name description content = (.error x, t, s)) ∨
      ∃ id t', t.register s scope name description content = (.ok id, t', storeWith content s) ∧
        t.Inserted scope (entryOf name description content) false id t' := by
  unfold register
  rcases insert_atomic h scope (entryOf name description content) false with
    ⟨x, hx⟩ | ⟨id, t', hrun, hi⟩
  · exact Or.inl ⟨x, by rw [hx]⟩
  · exact Or.inr ⟨id, t', by rw [hrun], hi⟩

theorem Sound.register (h : t.Sound) (s : Store) (scope : EntryId) (name description : String)
    (content : Content) : (t.register s scope name description content).2.1.Sound := by
  rcases register_cases h.slots s scope name description content with ⟨x, hx⟩ | ⟨id, t', hrun, hi⟩
  · rw [hx]
    exact h
  · rw [hrun]
    exact h.inserted (fun _ => entryOf_body) hi

/-- Releasing what may be no temporary says whether it was one. -/
theorem releaseIfTemporary_cases (h : t.Sound) (id : EntryId) :
    (∃ x, (releaseIfTemporary id : Edit ε Bool).run t = (.error x, t)) ∨
      (releaseIfTemporary id : Edit ε Bool).run t = (.ok false, t) ∨
      ∃ t', (releaseIfTemporary id : Edit ε Bool).run t = (.ok true, t') ∧ t.Released id t' := by
  unfold releaseIfTemporary
  rcases release_atomic h id with ⟨x, hx⟩ | ⟨_, t', hrun, hr⟩
  · cases x with
    | error y =>
      refine Or.inr (Or.inl ?_)
      exact (bind_ok _ (by rw [run_settle, hx]; rfl)).trans (run_pure _ _)
    | fault y => exact Or.inl ⟨_, bind_error _ (by rw [run_settle, hx]; rfl)⟩
  · refine Or.inr (Or.inr ⟨t', ?_, hr⟩)
    exact (bind_ok _ (by rw [run_settle, hrun]; rfl)).trans (run_pure _ _)

theorem Sound.clone (h : t.Sound) (id : EntryId) :
    ((clone id : Edit ε EntryId).run t).2.Sound := by
  cases live : t.get? id with
  | none =>
    have hrun :
        (Table.clone id : Edit ε EntryId).run t = (.error (.fault (.staleHandle id)), t) :=
      (look_bind_ok _ t rfl).trans (look_bind_error _ t (liveEntry_eq_error live))
    rw [hrun]
    exact h
  | some e =>
    obtain ⟨x, htree⟩ := h.exists_tree live
    obtain ⟨f, t', hrun, hc⟩ := run_clone (ε := ε) h htree
    rw [hrun]
    exact h.copied (tree_eq_ok_iff.mp htree).1.1 hc

end Table

namespace Request

variable {ε α β : Type} {t t' : Table} {s s' : Store}

/-! ## Taking answers apart -/

theorem map_eq_ok {x : Except Fault α} {a : α}
    (h : x.map (·, t, s) = .ok (a, t', s')) : x = .ok a ∧ t' = t ∧ s' = s := by
  cases x with
  | error y => exact absurd h (by simp [Except.map])
  | ok b =>
    have := Except.ok.inj h
    simp only [Prod.mk.injEq] at this
    exact ⟨by rw [this.1], this.2.1.symm, this.2.2.symm⟩

theorem done_eq_ok {r : Attempt Empty α × Table} {a : α}
    (h : answer.done s r = .ok (a, t', s')) : r = (.ok a, t') ∧ s' = s := by
  obtain ⟨outcome, u⟩ := r
  cases outcome with
  | error x =>
    cases x with
    | error e => exact e.elim
    | fault y => exact absurd h (by simp [answer.done])
  | ok b =>
    have := Except.ok.inj h
    simp only [Prod.mk.injEq] at this
    exact ⟨by rw [this.1, this.2.1], this.2.2.symm⟩

theorem edited_eq_ok {r : Attempt TreeError α × Table} {reply : Except TreeError α}
    (h : answer.edited s r = .ok (reply, t', s')) : r = (.ofError reply, t') ∧ s' = s := by
  obtain ⟨outcome, u⟩ := r
  cases outcome with
  | error x =>
    cases x with
    | error e =>
      have := Except.ok.inj h
      simp only [Prod.mk.injEq] at this
      exact ⟨by rw [← this.1, ← this.2.1]; rfl, this.2.2.symm⟩
    | fault y => exact absurd h (by simp [answer.edited, Attempt.settle, Except.map])
  | ok b =>
    have := Except.ok.inj h
    simp only [Prod.mk.injEq] at this
    exact ⟨by rw [← this.1, ← this.2.1]; rfl, this.2.2.symm⟩

theorem replied_eq_ok {r : Attempt ε α × Table × Store} {reply : Except ε α}
    (h : answer.replied r = .ok (reply, t', s')) : r = (.ofError reply, t', s') := by
  obtain ⟨outcome, u, v⟩ := r
  cases outcome with
  | error x =>
    cases x with
    | error e =>
      have := Except.ok.inj h
      simp only [Prod.mk.injEq] at this
      rw [← this.1, ← this.2.1, ← this.2.2]
      rfl
    | fault y => exact absurd h (by simp [answer.replied, Attempt.settle, Except.map])
  | ok b =>
    have := Except.ok.inj h
    simp only [Prod.mk.injEq] at this
    rw [← this.1, ← this.2.1, ← this.2.2]
    rfl

theorem makeTemp_eq_ok {value : Scalar} {id : EntryId}
    (hr : (Request.makeTemp value).answer t s = .ok (id, t', s')) :
    (t.alloc (.temp value)).1 = id ∧ (t.alloc (.temp value)).2 = t' ∧ s' = s := by
  obtain ⟨hrun, hs⟩ := done_eq_ok (r := (Table.makeTemp value).run t) hr
  exact ⟨Except.ok.inj (congrArg Prod.fst hrun), congrArg Prod.snd hrun, hs⟩

/-- The entry has been registered, or the request has been refused and nothing has been done. -/
theorem register_eq_ok (h : t.SlotsOk) {scope : EntryId} {name description : String}
    {content : Content} {reply : Except TreeError EntryId}
    (hr : (Request.register scope name description content).answer t s = .ok (reply, t', s')) :
    (∃ x, reply = .error x) ∧ t' = t ∧ s' = s ∨
      ∃ id, reply = .ok id ∧ s' = Table.storeWith content s ∧
        t.Inserted scope (Table.entryOf name description content) false id t' := by
  have hrun := replied_eq_ok hr
  rcases Table.register_cases h s scope name description content with ⟨x, hx⟩ | ⟨id, u, hx, hi⟩
  · rw [hx] at hrun
    obtain ⟨hreply, hrest⟩ := Prod.mk.inj hrun
    obtain ⟨rfl, rfl⟩ := Prod.mk.inj hrest
    cases reply with
    | ok id => exact absurd hreply (by simp [Attempt.ofError])
    | error e => exact Or.inl ⟨⟨e, rfl⟩, rfl, rfl⟩
  · rw [hx] at hrun
    obtain ⟨hreply, hrest⟩ := Prod.mk.inj hrun
    obtain ⟨rfl, rfl⟩ := Prod.mk.inj hrest
    cases reply with
    | ok new =>
      obtain rfl : id = new := Except.ok.inj hreply
      exact Or.inr ⟨id, rfl, rfl, hi⟩
    | error e => exact absurd hreply (by simp [Attempt.ofError])

/-- A temporary has been released, or nothing has been done. -/
theorem releaseIfTemporary_eq_ok (h : t.Sound) {id : EntryId} {released : Bool}
    (hr : (Request.releaseIfTemporary id).answer t s = .ok (released, t', s')) :
    s' = s ∧ (released = false ∧ t' = t ∨ released = true ∧ t.Released id t') := by
  obtain ⟨hrun, hs⟩ := done_eq_ok hr
  refine ⟨hs, ?_⟩
  rcases Table.releaseIfTemporary_cases (ε := Empty) h id with ⟨x, hx⟩ | hx | ⟨u, hx, hu⟩
  · rw [hx] at hrun
    exact absurd (congrArg Prod.fst hrun) (by simp)
  · rw [hx] at hrun
    exact Or.inl ⟨(Except.ok.inj (congrArg Prod.fst hrun)).symm, (congrArg Prod.snd hrun).symm⟩
  · rw [hx] at hrun
    obtain rfl : u = t' := congrArg Prod.snd hrun
    exact Or.inr ⟨(Except.ok.inj (congrArg Prod.fst hrun)).symm, hu⟩

/-! ## Soundness -/

theorem sound_answer (h : t.Sound) {r : Request} {reply : r.Reply}
    (hr : r.answer t s = .ok (reply, t', s')) : t'.Sound := by
  cases r with
  | size | contains =>
    obtain ⟨_, rfl, _⟩ := Prod.mk.injEq .. ▸ Except.ok.inj hr
    exact h
  | find | lookup | lookupPath | readNumber | readText | snapshot | convert =>
    rw [(map_eq_ok hr).2.1]
    exact h
  | writeNumber id x =>
    have := h.onEntry (s := s) id (Entry.frame_writeNumber x)
    rw [show t.onEntry s id (Entry.writeNumber x) = _ from replied_eq_ok hr] at this
    exact this
  | writeText id text =>
    have := h.onEntry (s := s) id (Entry.frame_writeText text)
    rw [show t.onEntry s id (Entry.writeText text) = _ from replied_eq_ok hr] at this
    exact this
  | assign id value => exact h.tryOn (Entry.frame_assign value) hr
  | copy target source =>
    rcases Table.copy_cases hr with ⟨_, rfl, _⟩ | ⟨value, hv⟩
    · exact h
    · exact h.tryOn (Entry.frame_assign value) hv
  | edit id change =>
    have := h.edited (ε := Empty) id change
    rwa [(done_eq_ok hr).1] at this
  | updateDefault id =>
    have := h.updated (ε := Empty) s id
    rwa [(done_eq_ok hr).1] at this
  | makeTemp value =>
    obtain ⟨-, rfl, -⟩ := makeTemp_eq_ok hr
    exact h.temp value
  | release id =>
    have := (Table.release_atomic h id).keeps h fun _ _ => h.released
    rwa [(edited_eq_ok hr).1] at this
  | releaseIfTemporary id =>
    rcases (releaseIfTemporary_eq_ok h hr).2 with ⟨_, rfl⟩ | ⟨_, hreleased⟩
    · exact h
    · exact h.released hreleased
  | clone id =>
    have := h.clone (ε := Empty) id
    rwa [(done_eq_ok hr).1] at this
  | attach scope id =>
    have := (Table.attach_atomic t scope id).keeps h fun _ _ => h.attached
    rwa [(edited_eq_ok hr).1] at this
  | rename id name =>
    have := (Table.rename_atomic t id name).keeps h fun _ _ => h.renamed
    rwa [(edited_eq_ok hr).1] at this
  | remove id =>
    have := (Table.remove_atomic h id).keeps h fun _ _ => h.removed
    rwa [(edited_eq_ok hr).1] at this
  | register scope name description content =>
    have := h.register s scope name description content
    rwa [replied_eq_ok hr] at this

/-! ## Refusals -/

/-- An atomic edit that answers with a value has been done. -/
theorem edited_done {m : Edit TreeError α} {P : α → Table → Prop} (hm : m.Atomic t P) {a : α}
    (hr : answer.edited s (m.run t) = .ok (.ok a, t', s')) : P a t' ∧ s' = s := by
  obtain ⟨hrun, hs⟩ := edited_eq_ok hr
  exact ⟨hm.of_ok hrun, hs⟩

/-- An atomic edit that answers with an error has changed nothing. -/
theorem edited_refused {m : Edit TreeError α} {P : α → Table → Prop} (hm : m.Atomic t P)
    {reply : Except TreeError α} (hr : answer.edited s (m.run t) = .ok (reply, t', s'))
    (hrefused : (!Except.isOk reply) = true) : t' = t ∧ s' = s := by
  obtain ⟨hrun, hs⟩ := edited_eq_ok hr
  cases reply with
  | ok a => exact absurd hrefused (by simp [Except.isOk, Except.toBool])
  | error x =>
    have := hm.unchanged (congrArg Prod.fst hrun)
    rw [hrun] at this
    exact ⟨this, hs⟩

theorem answer_refused (h : t.Sound) {r : Request} {reply : r.Reply}
    (hr : r.answer t s = .ok (reply, t', s')) (hrefused : r.refused reply = true) :
    t' = t ∧ s' = s := by
  have isError : ∀ {ε α : Type} {x : Except ε α}, (!Except.isOk x) = true → ∃ e, x = .error e := by
    intro ε α x hx
    cases x with
    | ok a => exact absurd hx (by simp [Except.isOk, Except.toBool])
    | error e => exact ⟨e, rfl⟩
  cases r with
  | size | contains | find | lookup | lookupPath | snapshot | edit | updateDefault | makeTemp
  | clone => exact absurd hrefused (by simp [refused])
  | readNumber | readText | convert => exact (map_eq_ok hr).2
  | writeNumber id x =>
    obtain ⟨e, rfl⟩ := isError hrefused
    have hrun := replied_eq_ok hr
    have := Table.onEntry_refused (fun _ _ _ => Entry.writeNumber_refused) (congrArg Prod.fst hrun)
    rw [show t.onEntry s id (Entry.writeNumber x) = _ from hrun] at this
    exact Prod.ext_iff.mp this
  | writeText id text =>
    obtain ⟨e, rfl⟩ := isError hrefused
    have hrun := replied_eq_ok hr
    have := Table.onEntry_refused (fun _ _ _ => Entry.writeText_refused) (congrArg Prod.fst hrun)
    rw [show t.onEntry s id (Entry.writeText text) = _ from hrun] at this
    exact Prod.ext_iff.mp this
  | assign id value =>
    obtain rfl : reply = false := (Bool.not_eq_true' reply).mp hrefused
    exact Table.tryOn_refused (fun _ _ => Entry.assign_refused) hr
  | copy target source =>
    obtain rfl : reply = false := (Bool.not_eq_true' reply).mp hrefused
    rcases Table.copy_cases hr with ⟨_, ht, hs⟩ | ⟨value, hv⟩
    · exact ⟨ht, hs⟩
    · exact Table.tryOn_refused (fun _ _ => Entry.assign_refused) hv
  | release id => exact edited_refused (Table.release_atomic h id) hr hrefused
  | releaseIfTemporary id =>
    obtain rfl : reply = false := (Bool.not_eq_true' reply).mp hrefused
    obtain ⟨hs, ⟨_, ht⟩ | ⟨htrue, _⟩⟩ := releaseIfTemporary_eq_ok h hr
    · exact ⟨ht, hs⟩
    · exact absurd htrue (by simp)
  | attach scope id => exact edited_refused (Table.attach_atomic t scope id) hr hrefused
  | rename id name => exact edited_refused (Table.rename_atomic t id name) hr hrefused
  | remove id => exact edited_refused (Table.remove_atomic h id) hr hrefused
  | register scope name description content =>
    obtain ⟨e, rfl⟩ := isError hrefused
    rcases register_eq_ok h.slots hr with ⟨_, hsame⟩ | ⟨id, hreply, _⟩
    · exact hsame
    · exact absurd hreply (by simp)

end Request

/-! ## Requests of a session -/

theorem Session.run_ask {ε : Type} (r : Request) (s : Session) :
    (ask r : Action ε r.Reply).run s = match r.answer s.table s.store with
      | .ok (reply, t, st) => (.ok reply, { s with table := t, store := st })
      | .error x => (.error (.fault x), s) := rfl

/-- An answer that changes nothing, or none, leaves the session as it is. -/
theorem Session.ask_unchanged {ε : Type} {s : Session} {r : Request}
    (hr : ∀ reply t st, r.answer s.table s.store = .ok (reply, t, st) →
      t = s.table ∧ st = s.store) : ((ask r : Action ε r.Reply).run s).2 = s := by
  rw [run_ask]
  cases ha : r.answer s.table s.store with
  | error x => rfl
  | ok answer =>
    obtain ⟨reply, t, st⟩ := answer
    obtain ⟨rfl, rfl⟩ := hr reply t st ha
    rfl

end Settings
