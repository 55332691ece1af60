import Archon.Kernel.Endpoints

/-! The fence counter. Every exclusive binding adds one to the watermark of its
endpoint without an overflow check, and an agent's report can raise it to any
value. Counted in the natural numbers the watermark shows when the addition
leaves the 64-bit range. -/
namespace Archon.Kernel.Cluster

/-- The endpoint for which an event issues a new exclusive fence. -/
def issues (c : Cluster) : Event → Option EndpointKey
  | .apply (.openBinding id lease node provider .exclusive) =>
    if c.bindings[id]? = none ∧ c.accepts (.openBinding id lease node provider .exclusive) then
      some ⟨provider, node⟩
    else none
  | _ => none

/-- The endpoint and the fence an accepted report raises it to. -/
def observes (c : Cluster) : Event → Option (EndpointKey × UInt64)
  | .apply (.advanceEndpointFence node provider fence) =>
    if c.accepts (.advanceEndpointFence node provider fence) then some (⟨provider, node⟩, fence)
    else none
  | _ => none

/-- The cluster, and the fence an endpoint has come to in the natural numbers. -/
def count (key : EndpointKey) : Cluster × Nat → Event → Cluster × Nat :=
  Runs.track take fun c event fence =>
    if c.issues event = some key then fence + 1
    else (c.observes event).elim fence fun observed =>
      if observed.1 = key then max fence observed.2.toNat else fence

def counted (key : EndpointKey) (events : List Event) : Cluster × Nat :=
  Runs.run (count key) (new, 0) events

def watermark (c : Cluster) (key : EndpointKey) : UInt64 := c.fenceWatermark key.provider key.node

section Step
variable {c c' : Cluster} {command : Command}

theorem watermark_step (hstep : Step c command c') (key : EndpointKey) :
    c'.watermark key =
      if c.issues (.apply command) = some key then c.watermark key + 1
      else (c.observes (.apply command)).elim (c.watermark key) fun observed =>
        if observed.1 = key ∧ c.watermark key < observed.2 then observed.2 else c.watermark key := by
  have haccepts := accepts_iff.mpr ⟨c', hstep⟩
  have hquiet : c'.lastFence = c.lastFence → c.issues (.apply command) = none →
      c.observes (.apply command) = none → c'.watermark key =
      if c.issues (.apply command) = some key then c.watermark key + 1
      else (c.observes (.apply command)).elim (c.watermark key) fun observed =>
        if observed.1 = key ∧ c.watermark key < observed.2 then observed.2 else c.watermark key := by
    intro hsame hissues hobserves
    simp [hissues, hobserves, watermark, fenceWatermark, hsame]
  cases hstep with
  | @bind node provider scope id leaseId lease claim required machine session hfresh =>
    cases scope with
    | independentShare => exact hquiet rfl rfl rfl
    | exclusive =>
      have hissues : c.issues (.apply (.openBinding id leaseId node provider .exclusive)) =
          some ⟨provider, node⟩ := by
        simp [issues, hfresh, haccepts]
      rw [hissues]
      simp only [Option.some.injEq, watermark, fenceWatermark, issuedFences, OrdMap.get_insert]
      by_cases hkey : (⟨provider, node⟩ : EndpointKey) = key
      · subst hkey
        simp
      · simp [hkey, observes]
  | @raise node fence provider =>
    have hobserves : c.observes (.apply (.advanceEndpointFence node provider fence)) =
        some (⟨provider, node⟩, fence) := by
      simp [observes, haccepts]
    rw [hobserves]
    simp only [issues, reduceCtorEq, if_false, Option.elim_some, watermark, fenceWatermark,
      OrdMap.get_upsert]
    by_cases hkey : (⟨provider, node⟩ : EndpointKey) = key
    · subst hkey
      simp
    · simp [hkey]
  | retry h =>
    refine hquiet rfl ?_ ?_
    · cases h with
      | openBinding hbinding =>
        rename_i scope _ _ _ _ _ _
        cases scope <;> simp [issues, hbinding]
      | _ => rfl
    · cases h <;> rfl
  | install _ h => cases h <;> exact hquiet rfl rfl rfl
  | annotate h => cases h <;> exact hquiet rfl rfl rfl
  | enter _ _ h => cases h <;> exact hquiet rfl rfl rfl
  | advance _ _ h => cases h <;> exact hquiet rfl rfl rfl
  | finish _ h => cases h <;> exact hquiet rfl rfl rfl
  | rebind _ h => cases h <;> exact hquiet rfl rfl rfl
  | restate h => cases h <;> exact hquiet rfl rfl rfl
  | release | lose | hello => exact hquiet rfl rfl rfl

theorem quiet_of_refused (h : c.accepts command = false) :
    c.issues (.apply command) = none ∧ c.observes (.apply command) = none := by
  constructor
  · unfold issues
    split
    · rename_i heq
      cases heq
      simp [h]
    · rfl
  · unfold observes
    split
    · rename_i heq
      cases heq
      simp [h]
    · rfl

theorem issued_of_fresh (hstep : Step c command c') {id : BindingId} {binding : Binding}
    (hnone : c.bindings[id]? = none) (hafter : c'.bindings[id]? = some binding)
    (hscope : binding.scope = .exclusive) :
    c.issues (.apply command) = some ⟨binding.provider, binding.node⟩ ∧
      binding.fence = c.watermark ⟨binding.provider, binding.node⟩ + 1 := by
  have hfresh := (bindings_evolve hstep).made id binding hnone hafter
  have hcommand := hfresh.command
  have hfence := hfresh.fence
  have haccepts := accepts_iff.mpr ⟨c', hstep⟩
  rw [hscope] at hcommand hfence
  subst hcommand
  exact ⟨by simp [issues, hnone, haccepts], hfence⟩

end Step

/-! Runs. -/

theorem watermark_event (before : List Event) (event : Event) (key : EndpointKey) :
    (run (before ++ [event])).watermark key =
      if (run before).issues event = some key then (run before).watermark key + 1
      else ((run before).observes event).elim ((run before).watermark key) fun observed =>
        if observed.1 = key ∧ (run before).watermark key < observed.2 then observed.2
        else (run before).watermark key := by
  have htaken := taken_run before event
  generalize run (before ++ [event]) = reached at htaken ⊢
  cases htaken with
  | accepted hstep => exact watermark_step hstep key
  | refused hrefused =>
    obtain ⟨hissues, hobserves⟩ := quiet_of_refused hrefused
    simp [hissues, hobserves]
  | clock => rfl
  | agreement => rfl
  | epoch => rfl

theorem counted_concat (key : EndpointKey) (events : List Event) (event : Event) :
    (counted key (events ++ [event])).2 =
      if (run events).issues event = some key then (counted key events).2 + 1
      else ((run events).observes event).elim (counted key events).2 fun observed =>
        if observed.1 = key then max (counted key events).2 observed.2.toNat
        else (counted key events).2 := by
  exact Runs.run_track_snd _ 0 events event

theorem counted_mono (key : EndpointKey) (before after : List Event) :
    (counted key before).2 ≤ (counted key (before ++ after)).2 := by
  induction after using List.reverseRecOn with
  | nil => rw [List.append_nil]
  | append_singleton after event ih =>
    rw [← List.append_assoc, counted_concat]
    split
    · omega
    · cases (run (before ++ after)).observes event with
      | none => exact ih
      | some observed =>
        simp only [Option.elim_some]
        split <;> omega

/-- The count stays within 64 bits all along. -/
def FencesCounted (key : EndpointKey) (events : List Event) : Prop :=
  Runs.Along (count key) (fun seen event => (count key seen event).2 < 2 ^ 64) (new, 0) events

theorem fencesCounted_concat {key : EndpointKey} {events : List Event} {event : Event} :
    FencesCounted key (events ++ [event]) ↔
      FencesCounted key events ∧ (counted key (events ++ [event])).2 < 2 ^ 64 := by
  rw [FencesCounted, Runs.along_concat, counted, Runs.run_concat]
  rfl

theorem FencesCounted.of_part {key : EndpointKey} {before events : List Event}
    (h : FencesCounted key events) (hpart : before <+: events) : FencesCounted key before := by
  obtain ⟨after, rfl⟩ := hpart
  exact ((Runs.along_append before after).mp h).1

/-- Within 64 bits the watermark is the count. -/
theorem watermark_counted {key : EndpointKey} {events : List Event} (h : FencesCounted key events) :
    ((run events).watermark key).toNat = (counted key events).2 := by
  induction events using List.reverseRecOn with
  | nil => rfl
  | append_singleton events event ih =>
    obtain ⟨hbefore, hbound⟩ := fencesCounted_concat.mp h
    have hsame := ih hbefore
    rw [counted_concat] at hbound
    rw [watermark_event, counted_concat]
    split
    · rename_i hissues
      rw [if_pos hissues] at hbound
      have hone : (1 : UInt64).toNat = 1 := rfl
      rw [UInt64.toNat_add, hsame, hone, Nat.mod_eq_of_lt hbound]
    · cases (run events).observes event with
      | none => exact hsame
      | some observed =>
        simp only [Option.elim_some, UInt64.lt_iff_toNat_lt, hsame]
        by_cases hkey : observed.1 = key
        · by_cases hlt : (counted key events).2 < observed.2.toNat
          · rw [if_pos ⟨hkey, hlt⟩, if_pos hkey, max_eq_right (by omega)]
          · rw [if_neg (fun h => hlt h.2), if_pos hkey, hsame, max_eq_left (by omega)]
        · rw [if_neg (fun h => hkey h.1), if_neg hkey, hsame]

theorem fence_counted {events : List Event} {id : BindingId} {binding : Binding}
    (hbinding : (run events).bindings[id]? = some binding) (hscope : binding.scope = .exclusive)
    (h : FencesCounted ⟨binding.provider, binding.node⟩ events) :
    binding.fence.toNat ≤ (counted ⟨binding.provider, binding.node⟩ events).2 := by
  induction events using List.reverseRecOn generalizing binding with
  | nil => simp [run, new] at hbinding
  | append_singleton events event ih =>
    obtain ⟨hbefore, -⟩ := fencesCounted_concat.mp h
    have hmono : ∀ earlier : Binding, (run events).bindings[id]? = some earlier →
        earlier.Moves binding →
        binding.fence.toNat ≤ (counted ⟨binding.provider, binding.node⟩ (events ++ [event])).2 := by
      intro earlier hearlier hmoves
      have hwithin := ih hearlier (hmoves.scope ▸ hscope) (by
        rw [← hmoves.provider, ← hmoves.node]
        exact hbefore)
      rw [← hmoves.provider, ← hmoves.node, ← hmoves.fence] at hwithin
      exact hwithin.trans (counted_mono _ _ _)
    rcases hearlier : (run events).bindings[id]? with _ | earlier
    · have hissued : (run events).issues event = some ⟨binding.provider, binding.node⟩ ∧
          binding.fence = (run events).watermark ⟨binding.provider, binding.node⟩ + 1 := by
        have htaken := taken_run events event
        generalize run (events ++ [event]) = reached at htaken hbinding
        cases htaken with
        | accepted hstep => exact issued_of_fresh hstep hearlier hbinding hscope
        | refused => simp [hearlier] at hbinding
        | clock => simp [hearlier] at hbinding
        | agreement => simp [hearlier] at hbinding
        | epoch => simp [hearlier] at hbinding
      have hone : (1 : UInt64).toNat = 1 := rfl
      rw [hissued.2, counted_concat, if_pos hissued.1, ← watermark_counted hbefore,
        UInt64.toNat_add, hone]
      exact Nat.mod_le _ _
    · obtain ⟨later, hlater, hmoves⟩ := (precedes_run events [event]).binding hearlier
      rw [hbinding] at hlater
      cases hlater
      exact hmono earlier hearlier hmoves

theorem observed_counted {key : EndpointKey} {earlier : List Event} (later : List Event)
    {report : Event} {fence : UInt64} (h : (run earlier).observes report = some (key, fence)) :
    fence.toNat ≤ (counted key (earlier ++ report :: later)).2 := by
  have hquiet : (run earlier).issues report = none := by
    cases report with
    | apply command =>
      cases command with
      | advanceEndpointFence => rfl
      | _ => simp [observes] at h
    | _ => simp [observes] at h
  have hreport : fence.toNat ≤ (counted key (earlier ++ [report])).2 := by
    rw [counted_concat, hquiet, h]
    simp
  rw [List.append_cons]
  exact hreport.trans (counted_mono _ _ _)

/-- An event that issues an exclusive fence issues a new one: the addition stays
in range, above every fence issued or observed on the endpoint before. -/
def FreshFence (before : List Event) (event : Event) : Prop :=
  ∀ key, (run before).issues event = some key →
    ((run before).watermark key + 1).toNat = ((run before).watermark key).toNat + 1 ∧
    (∀ (id : BindingId) (binding : Binding), (run before).bindings[id]? = some binding →
      binding.scope = .exclusive → binding.provider = key.provider → binding.node = key.node →
      binding.fence < (run before).watermark key + 1) ∧
    ∀ (earlier later : List Event) (report : Event) (fence : UInt64),
      before = earlier ++ report :: later → (run earlier).observes report = some (key, fence) →
      fence < (run before).watermark key + 1

theorem freshFence_of_counted {before : List Event} {event : Event}
    (h : ∀ key, FencesCounted key (before ++ [event])) : FreshFence before event := by
  intro key hissues
  obtain ⟨hbefore, hbound⟩ := fencesCounted_concat.mp (h key)
  rw [counted_concat, if_pos hissues] at hbound
  have hsame := watermark_counted hbefore
  have hnext : ((run before).watermark key + 1).toNat = ((run before).watermark key).toNat + 1 := by
    have hone : (1 : UInt64).toNat = 1 := rfl
    rw [UInt64.toNat_add, hone, hsame, Nat.mod_eq_of_lt hbound]
  refine ⟨hnext, ?_, ?_⟩
  · rintro id binding hbinding hscope hprovider hnode
    obtain rfl : (⟨binding.provider, binding.node⟩ : EndpointKey) = key := by
      rw [hprovider, hnode]
    have hwithin := fence_counted hbinding hscope hbefore
    rw [UInt64.lt_iff_toNat_lt]
    omega
  · rintro earlier later report fence rfl hobserved
    have hwithin := observed_counted later hobserved
    rw [UInt64.lt_iff_toNat_lt]
    omega

/-- Every exclusive fence of a run is a new one exactly when the count of every
endpoint stays within 64 bits. -/
theorem fences_never_overflow_iff (events : List Event) :
    (∀ before event, before ++ [event] <+: events → FreshFence before event) ↔
      ∀ key, FencesCounted key events := by
  constructor
  · intro h key
    induction events using List.reverseRecOn with
    | nil => exact trivial
    | append_singleton events event ih =>
      have hbefore := ih fun before last hpart =>
        h before last (hpart.trans (List.prefix_append _ _))
      refine fencesCounted_concat.mpr ⟨hbefore, ?_⟩
      have hsame := watermark_counted hbefore
      have hword := ((run events).watermark key).toNat_lt
      rw [counted_concat]
      split
      · rename_i hissues
        have hnext := (h events event List.prefix_rfl key hissues).1
        have hword' := ((run events).watermark key + 1).toNat_lt
        omega
      · cases (run events).observes event with
        | none => simpa [← hsame] using hword
        | some observed =>
          have hword' := observed.2.toNat_lt
          simp only [Option.elim_some]
          split <;> omega
  · intro h before event hpart
    exact freshFence_of_counted fun key => (h key).of_part hpart

/-- The endpoint of the gpu reports the greatest fence, and a lease is opened. -/
def Sample.exhausted : List Event := Sample.host .exclusive ++ [
  .apply (.advanceEndpointFence 2 .enforce lastFenceValue),
  Sample.openLease 1 2 none]

theorem exhausted_fence_wraps :
    ¬∀ (before : List Event) (event : Event), FreshFence before event := by
  intro h
  have hissues : (run Sample.exhausted).issues (.apply (.openBinding 1 1 2 .enforce .exclusive)) =
      some ⟨.enforce, 2⟩ := by
    decide +kernel
  have hnext := (h _ _ _ hissues).1
  revert hnext
  decide +kernel

end Archon.Kernel.Cluster
