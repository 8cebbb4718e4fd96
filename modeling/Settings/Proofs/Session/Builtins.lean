import Settings.Proofs.Session.Steps

/-!
# Builtins are functions

Only functions are registered among the builtins of a scope, copies of builtins are copies of
functions, and nothing else ever gets on that list. So in every table that a host can come to the
builtin children of scopes are functions (`Reachable.builtinsCallable`): nothing lies under them,
and every entry with a value is reached through registered children alone.
-/

set_option autoImplicit false

namespace Settings
namespace Table

variable {t t' : Table} {ids : List EntryId} {new : Option Entry}

/-- The builtin children of scopes are functions. -/
def BuiltinsCallable (t : Table) : Prop :=
  ∀ id e b, t.get? id = some e → e.scope? = some b →
    ∀ c ∈ b.builtins, ∃ ec, t.get? c = some ec ∧ ec.isFunction = true

/-- A function stays a function as long as it is in its place. -/
theorem Step.isFunction (h : t.Sound) (hs : t.Step ids new t') {y : EntryId} {e e' : Entry}
    (live : t.get? y = some e) (live' : t'.get? y = some e') (he : e.isFunction = true) :
    e'.isFunction = true := by
  have notFresh : t.get? y ≠ none := by simp [live]
  cases hs.origin h live' with
  | kept live₀ hshape =>
    obtain rfl := Option.mem_unique live live₀
    rw [isFunction_of_storage hshape, he]
  | scope live₀ hb hb' builtins =>
    obtain rfl := Option.mem_unique live live₀
    rw [isFunction_of_scope? hb] at he
    exact absurd he (by simp)
  | temp fresh | copy fresh | new fresh => exact absurd fresh notFresh

theorem BuiltinsCallable.step (h : t.Sound) (hb : t.BuiltinsCallable) (hs : t.Step ids new t')
    (h' : t'.Sound) : t'.BuiltinsCallable := by
  intro y e' b' live' hb' c hc
  obtain ⟨ec', lc', _⟩ := (h'.scope y e' b' live' hb').child c (List.mem_append_right _ hc)
  -- a builtin of the scope as it was before
  have old : ∀ e b, t.get? y = some e → e.scope? = some b → c ∈ b.builtins →
      ∃ ec, t'.get? c = some ec ∧ ec.isFunction = true := by
    intro e b live hscope hm
    obtain ⟨ec, lc, hec⟩ := hb y e b live hscope c hm
    exact ⟨ec', lc', hs.isFunction h lc lc' hec⟩
  cases hs.origin h live' with
  | @kept e _ live hshape =>
    exact old e b' live ((scope?_of_storage hshape).symm.trans hb') hc
  | @scope e _ b b'' live hscope hb'' builtins =>
    obtain rfl := Option.mem_unique hb' hb''
    rcases builtins c hc with hm | hnew
    · exact old e b live hscope hm
    · exact hnew
  | temp fresh value =>
    rw [temp_scope?] at hb'
    exact absurd hb' (by simp)
  | @copy id z e f owner fresh hid hz live children =>
    rw [Entry.scope?_copied] at hb'
    obtain ⟨b, hscope, rfl⟩ := Option.map_eq_some_iff.mp hb'
    obtain ⟨d, hd, rfl⟩ := List.mem_map.mp hc
    obtain ⟨ed, owner', ld, hcopy⟩ :=
      children d (children_eq hscope ▸ List.mem_append_right _ hd)
    obtain ⟨ed', ld', hed⟩ := hb z e b live hscope d hd
    obtain rfl := Option.mem_unique ld ld'
    exact ⟨_, hcopy, by rw [Entry.isFunction_copied, hed]⟩
  | @new e scope fresh hnew body =>
    obtain ⟨s, rfl⟩ := body b' hb'
    exact absurd hc (by simp [ScopeBody.empty])

/-! ## In every table that a host can come to -/

theorem kept_builtinsCallable : Kept fun t => t.Sound ∧ t.BuiltinsCallable where
  answered := fun ⟨h, hb⟩ hr =>
    have sound := kept_sound.answered h hr
    ⟨sound, hb.step h (Request.step_answer h hr) sound⟩
  defined := fun scope name f description builtin ⟨h, hb⟩ =>
    have sound := kept_sound.defined scope name f description builtin h
    ⟨sound, hb.step h (step_define h scope name f description builtin) sound⟩
  copied := fun {t t' s s' target source done} ⟨h, hb⟩ hr => by
    have sound := kept_sound.copied h hr
    have hstep : t.Step [target, source] none t' := step_copyLive hr
    exact ⟨sound, hb.step h hstep sound⟩

theorem Reachable.builtinsCallable (h : t.Reachable) : t.BuiltinsCallable := by
  obtain ⟨name, description, ops, rfl⟩ := h
  refine (kept_builtinsCallable.after ops ⟨sound_withRoot name description, ?_⟩).2
  intro id e b live hb c hc
  have hlt := index_lt_of_get? live
  obtain rfl : id = root := EntryId.eq_of_index (Nat.lt_one_iff.mp hlt)
  obtain rfl := Option.some.inj live
  obtain rfl := Option.some.inj hb
  exact absurd hc (by simp [ScopeBody.empty])

/-- What lies under an entry and is no function is reached through registered children. -/
theorem BuiltinsCallable.mem_registered (hb : t.BuiltinsCallable) {x : Tree} (hx : t.Holds x)
    {y : EntryId} {e : Entry} (live : t.get? y = some e) (he : e.isFunction = false)
    (hy : y ∈ x.ids) : y ∈ x.registered := by
  induction hx with
  | leaf _ _ => simpa [Tree.registered_node, Tree.ids_node] using hy
  | @scope id p b es bs lp body entries builtins held ih =>
    rw [Tree.registered_node, List.mem_cons]
    rcases Tree.mem_ids_node.mp hy with hid | ⟨z, hz, hyz⟩
    · exact Or.inl hid
    rcases List.mem_append.mp hz with hes | hbs
    · exact Or.inr (List.mem_flatMap.mpr ⟨z, hes, ih z hz hyz⟩)
    · -- a function has nothing under it, so it would be the entry
      obtain ⟨ec, lc, hec⟩ := hb id p b lp body z.id (builtins ▸ List.mem_map_of_mem hbs)
      have hplain : ec.scope? = none := by
        cases hscope : ec.scope? with
        | none => rfl
        | some body' => rw [isFunction_of_scope? hscope] at hec; exact absurd hec (by simp)
      have hleaf := held z hz
      cases hleaf with
      | @leaf i ez lz plain =>
        obtain rfl : y = i := by simpa [Tree.ids_node] using hyz
        obtain rfl := Option.mem_unique live lc
        rw [he] at hec
        exact absurd hec (by simp)
      | @scope i ez bz _ _ lz bodyz _ _ _ =>
        obtain rfl := Option.mem_unique lz lc
        rw [hplain] at bodyz
        exact absurd bodyz (by simp)

end Table
end Settings
