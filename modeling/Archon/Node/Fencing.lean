import Archon.Node.Provider

/-! Fencing at a provider. Each call moves endpoints forward only, each endpoint
stays coherent, and the endpoints of other keys keep their standing; so a
generation closed once never opens again, whatever calls come between. -/
namespace Archon.Node
open Std Fallible Archon.Kernel

/-- What authority over a resource depends on. -/
def standing (endpoint : Endpoint) : Bool × Option BindingId × UInt64 × EndpointPhase :=
  (endpoint.isOpen, endpoint.binding, endpoint.acceptedFence, endpoint.phase)

theorem standing_handshake (e : Endpoint) (session : UInt64) :
    standing (e.handshake session) = standing e := by
  unfold Endpoint.handshake
  split <;> rfl

namespace ResourceProvider
variable {p p' q : ResourceProvider} {op : EndpointOp} {generation : EndpointGeneration}
variable {key : EndpointKey} {focus : Option EndpointKey}

/-- What a call about the endpoint `focus` may do. -/
structure Moves (focus : Option EndpointKey) (p p' : ResourceProvider) : Prop where
  session : p.session ≤ p'.session
  epoch : p.epoch ≤ p'.epoch
  kept : ∀ (key : EndpointKey) e, p.endpoints[key]? = some e →
    ∃ e', p'.endpoints[key]? = some e' ∧ e.Advanced e'
  coherent : (∀ (key : EndpointKey) e, p.endpoints[key]? = some e → e.Coherent) →
    ∀ (key : EndpointKey) e, p'.endpoints[key]? = some e → e.Coherent
  spared : ∀ key : EndpointKey, focus ≠ some key →
    p'.endpoints[key]?.map standing = p.endpoints[key]?.map standing

theorem Moves.refl (p : ResourceProvider) : Moves focus p p where
  session := UInt64.le_refl _
  epoch := UInt64.le_refl _
  kept _ e he := ⟨e, he, .refl e⟩
  coherent h := h
  spared _ _ := rfl

theorem Moves.trans (h : Moves focus p q) (h' : Moves focus q p') : Moves focus p p' where
  session := UInt64.le_trans h.session h'.session
  epoch := UInt64.le_trans h.epoch h'.epoch
  kept key e he := by
    obtain ⟨e', he', hmoved⟩ := h.kept key e he
    obtain ⟨e'', he'', hmoved'⟩ := h'.kept key e' he'
    exact ⟨e'', he'', hmoved.trans hmoved'⟩
  coherent hp := h'.coherent (h.coherent hp)
  spared key hkey := (h'.spared key hkey).trans (h.spared key hkey)

/-! The parts of a call. -/

theorem moves_epoch {epoch : UInt64} (h : p.epoch < epoch) : Moves focus p { p with epoch } :=
  ⟨UInt64.le_refl _, UInt64.le_of_lt h, fun _ e he => ⟨e, he, .refl e⟩, fun h => h, fun _ _ => rfl⟩

theorem moves_session {session : UInt64} (h : p.session < session) :
    Moves focus p { p with session, endpoints := p.endpoints.map fun _ e => e.handshake session } where
  session := UInt64.le_of_lt h
  epoch := UInt64.le_refl _
  kept key e he := by
    refine ⟨e.handshake session, ?_, e.handshake_advanced session⟩
    simp [ExtTreeMap.getElem?_map, he]
  coherent hp key e he := by
    simp only [ExtTreeMap.getElem?_map, Option.map_eq_some_iff] at he
    obtain ⟨before, hbefore, rfl⟩ := he
    exact (hp key before hbefore).handshake session
  spared key _ := by
    simp only [ExtTreeMap.getElem?_map, Option.map_map]
    congr 1
    funext e
    exact standing_handshake e session

theorem moves_of_check {session epoch : UInt64} (h : checkControlGeneration session epoch p = .ok () q) :
    Moves focus p q := by
  simp only [checkControlGeneration, bind_ok, get_ok, attempt_ok, refuseIf_ok, ite_ok, modify_ok,
    pure_ok] at h
  obtain ⟨_, _, ⟨rfl, rfl⟩, _, _, ⟨-, rfl⟩, _, _, ⟨-, rfl⟩, h⟩ := h
  rcases h with ⟨hepoch, _, _, rfl, h⟩ | ⟨-, h⟩
  · refine (moves_epoch hepoch).trans ?_
    rcases h with ⟨hsession, rfl⟩ | ⟨-, -, rfl⟩
    · exact moves_session hsession
    · exact .refl _
  · rcases h with ⟨hsession, rfl⟩ | ⟨-, -, rfl⟩
    · exact moves_session hsession
    · exact .refl _

theorem check_atomic (session epoch : UInt64) : Atomic p (checkControlGeneration session epoch) := by
  simp only [checkControlGeneration, atomic_get_bind, atomic_attempt_bind]
  intro _ _ _ _
  apply Succeeds.atomic
  split <;> split <;> simp

theorem moves_create (fresh : Endpoint) (hfresh : fresh.Coherent) :
    Moves (some key) p { p with endpoints := p.endpoints.insertIfNew key fresh } where
  session := UInt64.le_refl _
  epoch := UInt64.le_refl _
  kept k e he := by
    refine ⟨e, ?_, .refl e⟩
    have hmem : k ∈ p.endpoints := OrdMap.mem_iff.mpr ⟨e, he⟩
    rw [ExtTreeMap.getElem?_insertIfNew, if_neg, he]
    rintro ⟨heq, hnew⟩
    exact hnew (LawfulEqOrd.eq_of_compare heq ▸ hmem)
  coherent hp k e he := by
    rw [ExtTreeMap.getElem?_insertIfNew] at he
    split at he
    · cases he
      exact hfresh
    · exact hp k e he
  spared k hk := by
    rw [ExtTreeMap.getElem?_insertIfNew, if_neg]
    rintro ⟨heq, -⟩
    exact hk (congrArg some (LawfulEqOrd.eq_of_compare heq))

/-- A program that moves an endpoint forward and keeps it coherent. -/
def Tame (program : EStateM String Endpoint Unit) : Prop :=
  ∀ e, e.Advanced (after program e) ∧ (e.Coherent → (after program e).Coherent)

theorem after_onEndpoint {program : EStateM String Endpoint Unit} {e : Endpoint}
    (he : p.endpoints[key]? = some e) :
    after (onEndpoint key program) p =
      { p with endpoints := p.endpoints.insert key (after program e) } := by
  unfold after onEndpoint
  simp only [he]
  cases program e <;> rfl

theorem moves_onEndpoint {program : EStateM String Endpoint Unit} (hprogram : Tame program) :
    Moves (some key) p (after (onEndpoint key program) p) := by
  cases hkey : p.endpoints[key]? with
  | none =>
    have hsame : after (onEndpoint key program) p = p := by simp [after, onEndpoint, hkey]
    rw [hsame]
    exact .refl p
  | some e =>
    rw [after_onEndpoint hkey]
    obtain ⟨hadvanced, hcoherent⟩ := hprogram e
    refine ⟨UInt64.le_refl _, UInt64.le_refl _, fun k before hk => ?_, fun hp k e' hk => ?_,
      fun k hk => ?_⟩
    · rw [OrdMap.get_insert]
      split
      · rename_i heq
        subst heq
        rw [hkey] at hk
        cases hk
        exact ⟨_, rfl, hadvanced⟩
      · exact ⟨before, hk, .refl before⟩
    · rw [OrdMap.get_insert] at hk
      split at hk
      · cases hk
        exact hcoherent (hp key e hkey)
      · exact hp k e' hk
    · rw [OrdMap.get_insert, if_neg fun heq => hk (congrArg some heq)]

/-! At the endpoint. -/

theorem request_ok {subject : String} {e e' : Endpoint}
    (h : request op generation subject e = .ok () e') :
    Endpoint.apply op ⟨generation.binding⟩ generation.fence generation.session e = .ok () e' := by
  unfold request EStateM.adaptExcept at h
  split at h
  · cases h
  · rename_i hok
    cases h
    exact hok

theorem after_request {subject : String} (e : Endpoint) :
    after (request op generation subject) e =
      after (Endpoint.apply op ⟨generation.binding⟩ generation.fence generation.session) e := by
  unfold after request EStateM.adaptExcept
  cases Endpoint.apply op ⟨generation.binding⟩ generation.fence generation.session e <;> rfl

theorem tame_request (subject : String) : Tame (request op generation subject) := by
  intro e
  rw [after_request]
  exact ⟨Endpoint.after_apply_advanced, Endpoint.Coherent.after_apply⟩

theorem Tame.bind {first : EStateM String Endpoint Unit} {next : Unit → EStateM String Endpoint Unit}
    (hfirst : Tame first) (hnext : ∀ u, Tame (next u)) : Tame (first >>= next) := by
  intro e
  refine @after_bind _ _ _ _ (fun e' => e.Advanced e' ∧ (e.Coherent → e'.Coherent)) _ _ _
    (hfirst e) fun u t ht => ?_
  obtain ⟨hadvanced, hcoherent⟩ := hfirst e
  rw [after_of_ok ht] at hadvanced hcoherent
  obtain ⟨hadvanced', hcoherent'⟩ := hnext u t
  exact ⟨hadvanced.trans hadvanced', fun he => hcoherent' (hcoherent he)⟩

theorem tame_handshake (session : UInt64) :
    Tame (modify fun e : Endpoint => e.handshake session) :=
  fun e => ⟨e.handshake_advanced session, fun he => he.handshake session⟩

theorem tame_serve (adopt : Bool) : Tame (serve op generation adopt) := by
  refine (tame_handshake _).bind fun _ => ?_
  cases adopt with
  | false => exact tame_request "generation"
  | true => exact (tame_request "adoption").bind fun _ => tame_request "generation"

/-- Accepted operations apply to an endpoint the stored one has advanced to. -/
theorem serve_ok {adopt : Bool} {e e' : Endpoint} (h : serve op generation adopt e = .ok () e') :
    ∃ ready, e.Advanced ready ∧
      Endpoint.Applied ready op ⟨generation.binding⟩ generation.fence e' := by
  have hheard := e.handshake_advanced generation.session
  cases adopt with
  | false =>
    simp only [serve, bind_ok, modify_ok, Bool.false_eq_true, ↓reduceIte] at h
    obtain ⟨_, _, rfl, h⟩ := h
    exact ⟨_, hheard, (Endpoint.apply_ok (request_ok h)).2⟩
  | true =>
    simp only [serve, bind_ok, modify_ok, ↓reduceIte] at h
    obtain ⟨_, _, rfl, _, ready, hadopted, h⟩ := h
    exact ⟨ready, hheard.trans (Endpoint.apply_ok (request_ok hadopted)).2.advanced,
      (Endpoint.apply_ok (request_ok h)).2⟩

/-! Whole calls. -/

theorem moves_apply (op : EndpointOp) (generation : EndpointGeneration) (p : ResourceProvider) :
    Moves (some (endpointKey generation)) p (after (apply op generation) p) := by
  unfold apply
  refine after_bind ?_ fun _ q hcheck => ?_
  · rcases (@check_atomic p generation.session generation.epoch).after_eq with h | ⟨_, h⟩
    · rw [h]
      exact .refl p
    · exact moves_of_check h
  refine (moves_of_check hcheck).trans ?_
  rw [after_get_bind]
  dsimp only
  split
  · rw [after_modify_bind]
    exact (moves_create _ (Endpoint.coherent_new _ _ _)).trans (moves_onEndpoint (tame_serve _))
  · exact moves_onEndpoint (tame_serve _)

/-- An accepted operation applied to what the stored endpoint had advanced to. -/
theorem apply_ok (h : apply op generation p = .ok () p') :
    ∃ ready e', p'.endpoints[endpointKey generation]? = some e' ∧
      Endpoint.Applied ready op ⟨generation.binding⟩ generation.fence e' ∧
      ∀ e, p.endpoints[endpointKey generation]? = some e → e.Advanced ready := by
  have hserved : ∃ q adopt, Moves (some (endpointKey generation)) p q ∧
      onEndpoint (endpointKey generation) (serve op generation adopt) q = .ok () p' := by
    simp only [apply, bind_ok, get_ok, ite_ok, modify_ok] at h
    obtain ⟨_, q, hcheck, _, _, ⟨rfl, rfl⟩, h⟩ := h
    rcases h with ⟨-, _, _, rfl, h⟩ | ⟨-, h⟩
    · have hfresh := Endpoint.coherent_new ⟨generation.provider⟩ ⟨generation.node⟩ generation.session
      exact ⟨_, _, (moves_of_check hcheck).trans (moves_create _ hfresh), h⟩
    · exact ⟨_, _, moves_of_check hcheck, h⟩
  obtain ⟨q, adopt, hmoves, hserved⟩ := hserved
  unfold onEndpoint at hserved
  split at hserved
  · cases hserved
  rename_i stored hstored
  split at hserved
  · rename_i e' hserve
    cases hserved
    obtain ⟨ready, hready, happlied⟩ := serve_ok hserve
    refine ⟨ready, e', by rw [OrdMap.get_insert, if_pos rfl], happlied, fun e he => ?_⟩
    obtain ⟨moved, hmoved, hadvanced⟩ := hmoves.kept _ e he
    rw [hstored] at hmoved
    cases hmoved
    exact hadvanced.trans hready
  · cases hserved

theorem moves_prepare (generation : EndpointGeneration) (p : ResourceProvider) :
    Moves (some (endpointKey generation)) p (after (prepare generation) p) := by
  have happly := moves_apply .prepare generation p
  refine after_bind happly fun _ q hq => ?_
  rw [after_of_ok hq] at happly
  exact happly.trans ⟨UInt64.le_refl _, UInt64.le_refl _, fun _ e he => ⟨e, he, .refl e⟩,
    fun h => h, fun _ _ => rfl⟩

theorem moves_take (p : ResourceProvider) (call : Call) : Moves call.key p (p.take call) := by
  cases call with
  | prepare generation =>
    rw [take, Call.perform, after_map]
    exact moves_prepare generation p
  | activate generation => exact moves_apply .activate generation p
  | release generation => exact moves_apply .release generation p
  | fence generation => exact moves_apply .fence generation p
  | authorizeExecution session epoch =>
    rcases (@check_atomic p session epoch).after_eq with h | ⟨_, h⟩
    · rw [take, Call.perform, authorizeExecution, h]
      exact .refl p
    · exact moves_of_check h

theorem accepts_iff {call : Call} : p.accepts call ↔ ∃ p', call.perform p = .ok () p' := by
  unfold accepts
  split
  · rename_i q hq
    exact ⟨fun _ => ⟨q, hq⟩, fun _ => rfl⟩
  · simp_all

theorem accepts_of_prepare (h : p.accepts (.prepare generation)) :
    ∃ q, apply .prepare generation p = .ok () q := by
  obtain ⟨p', h⟩ := accepts_iff.mp h
  simp only [Call.perform, prepare, map_ok, bind_ok] at h
  obtain ⟨_, ⟨_, q, hq, -⟩, -⟩ := h
  exact ⟨q, hq⟩

/-! Runs. -/

/-- The key has an endpoint at which fence `f` is sealed. -/
def SealedAt (key : EndpointKey) (f : UInt64) (p : ResourceProvider) : Prop :=
  ∃ e, p.endpoints[key]? = some e ∧ e.Sealed f

theorem Moves.sealed_at (h : Moves focus p p') {f : UInt64} (hp : SealedAt key f p) :
    SealedAt key f p' := by
  obtain ⟨e, he, hsealed⟩ := hp
  obtain ⟨e', he', hadvanced⟩ := h.kept key e he
  exact ⟨e', he', hadvanced.keeps f hsealed⟩

/-- An accepted close seals its fence. -/
theorem sealed_of_close {close : Call} (hclose : close ∈ [.release generation, .fence generation])
    (h : p.accepts close) : SealedAt (endpointKey generation) generation.fence (p.take close) := by
  obtain ⟨p', h⟩ := accepts_iff.mp h
  rw [take, after_of_ok h]
  simp only [List.mem_cons, List.not_mem_nil, or_false] at hclose
  rcases hclose with rfl | rfl
  · obtain ⟨_, e', he', happlied, -⟩ := apply_ok h
    exact ⟨e', he', happlied.seals (.inl rfl)⟩
  · obtain ⟨_, e', he', happlied, -⟩ := apply_ok h
    exact ⟨e', he', happlied.seals (.inr rfl)⟩

/-- A sealed generation is neither prepared nor activated. -/
theorem refused_of_sealed {call : Call} {f : UInt64}
    (hcall : call ∈ [.prepare generation, .activate generation])
    (hsealed : SealedAt (endpointKey generation) f p) (hf : generation.fence ≤ f) :
    p.accepts call = false := by
  rw [← Bool.not_eq_true]
  intro haccepts
  have happly : ∃ op q, (op = .prepare ∨ op = .activate) ∧ apply op generation p = .ok () q := by
    simp only [List.mem_cons, List.not_mem_nil, or_false] at hcall
    rcases hcall with rfl | rfl
    · obtain ⟨q, hq⟩ := accepts_of_prepare haccepts
      exact ⟨.prepare, q, .inl rfl, hq⟩
    · obtain ⟨q, hq⟩ := accepts_iff.mp haccepts
      exact ⟨.activate, q, .inr rfl, hq⟩
  obtain ⟨op, q, hop, hq⟩ := happly
  obtain ⟨e, he, hsealed⟩ := hsealed
  obtain ⟨ready, e', -, happlied, hadvanced⟩ := apply_ok hq
  exact happlied.not_sealed hop hf ((hadvanced e he).keeps f hsealed)

theorem moves_run_concat (calls : List Call) (call : Call) :
    Moves call.key (run calls) (run (calls ++ [call])) := by
  rw [run, run, Runs.run_concat]
  exact moves_take _ call

/-- What a whole run does, whichever endpoints it is about. -/
theorem sealed_run {f : UInt64} (before between : List Call) (h : SealedAt key f (run before)) :
    SealedAt key f (run (before ++ between)) := by
  refine @Runs.related _ _ take new (fun s t => SealedAt key f s → SealedAt key f t)
    (fun _ h => h) (fun s calls call ih hs => ?_) before between h
  exact (moves_run_concat calls call).sealed_at (ih hs)

theorem advanced_run (before later : List Call) :
    (run before).session ≤ (run (before ++ later)).session ∧
    (run before).epoch ≤ (run (before ++ later)).epoch ∧
    ∀ (key : EndpointKey) e, (run before).endpoints[key]? = some e →
      ∃ e', (run (before ++ later)).endpoints[key]? = some e' ∧ e.Advanced e' := by
  induction later using List.reverseRecOn with
  | nil =>
    rw [List.append_nil]
    exact ⟨UInt64.le_refl _, UInt64.le_refl _, fun _ e he => ⟨e, he, .refl e⟩⟩
  | append_singleton later call ih =>
    obtain ⟨hsession, hepoch, hkept⟩ := ih
    have hmoves := moves_run_concat (before ++ later) call
    rw [← List.append_assoc]
    refine ⟨UInt64.le_trans hsession hmoves.session, UInt64.le_trans hepoch hmoves.epoch,
      fun key e he => ?_⟩
    obtain ⟨e', he', hadvanced⟩ := hkept key e he
    obtain ⟨e'', he'', hadvanced'⟩ := hmoves.kept key e' he'
    exact ⟨e'', he'', hadvanced.trans hadvanced'⟩

theorem coherent_run (calls : List Call) :
    ∀ (key : EndpointKey) e, (run calls).endpoints[key]? = some e → e.Coherent := by
  have hnew : ∀ (key : EndpointKey) e, new.endpoints[key]? = some e → e.Coherent := by simp [new]
  refine @Runs.invariant _ _ take new
    (fun p => ∀ (key : EndpointKey) e, p.endpoints[key]? = some e → e.Coherent) hnew ?_ calls
  exact fun calls call ih => (moves_run_concat calls call).coherent ih

/-- In every sequence of calls on a fresh provider: a generation released or
fenced is never prepared or activated again; sessions, epochs and fences never
go back; an endpoint is open exactly when it has a binding and is not idle; and
a call leaves the standing of every other endpoint alone. -/
theorem provider_fencing :
    (∀ (before between : List Call) (closed reopened : EndpointGeneration),
      ∀ close ∈ [Call.release closed, Call.fence closed], (run before).accepts close →
      ∀ call ∈ [Call.prepare reopened, Call.activate reopened],
      endpointKey reopened = endpointKey closed → reopened.fence ≤ closed.fence →
        (run (before ++ close :: between)).accepts call = false) ∧
    (∀ before later : List Call,
      (run before).session ≤ (run (before ++ later)).session ∧
      (run before).epoch ≤ (run (before ++ later)).epoch ∧
      ∀ (key : EndpointKey) e, (run before).endpoints[key]? = some e →
        ∃ e', (run (before ++ later)).endpoints[key]? = some e' ∧
          e.acceptedFence ≤ e'.acceptedFence ∧ e.session ≤ e'.session) ∧
    (∀ (calls : List Call) (key : EndpointKey) e, (run calls).endpoints[key]? = some e →
      (e.isOpen ↔ e.binding.isSome) ∧ (e.isOpen ↔ e.phase ≠ .idle)) ∧
    ∀ (calls : List Call) (call : Call) (key : EndpointKey), call.key ≠ some key →
      (run (calls ++ [call])).endpoints[key]?.map standing =
        (run calls).endpoints[key]?.map standing := by
  refine ⟨?_, ?_, ?_, ?_⟩
  · intro before between closed reopened close hclose haccepts call hcall hkey hfence
    have hsealed := sealed_of_close hclose haccepts
    rw [← hkey] at hsealed
    have hrun : SealedAt (endpointKey reopened) closed.fence (run (before ++ close :: between)) := by
      rw [List.append_cons]
      apply sealed_run
      rw [run, Runs.run_concat]
      exact hsealed
    exact refused_of_sealed hcall hrun hfence
  · intro before later
    obtain ⟨hsession, hepoch, hkept⟩ := advanced_run before later
    refine ⟨hsession, hepoch, fun key e he => ?_⟩
    obtain ⟨e', he', hadvanced⟩ := hkept key e he
    exact ⟨e', he', hadvanced.fence, hadvanced.session⟩
  · intro calls key e he
    have hcoherent := coherent_run calls key e he
    exact ⟨hcoherent.binding, hcoherent.phase⟩
  · intro calls call key hkey
    exact (moves_run_concat calls call).spared key hkey

def Sample.adopted : EndpointGeneration := ⟨10, 7, 1, .exclusive, 3, 4, 7⟩

/-- An adopted generation that was fenced is not adopted again. -/
theorem adopted_generation_stays_fenced :
    (run [.activate Sample.adopted]).accepts (.fence Sample.adopted) ∧
    (run ([.activate Sample.adopted] ++ .fence Sample.adopted :: [])).accepts
      (.activate Sample.adopted) = false := by
  have hfenced : (run [.activate Sample.adopted]).accepts (.fence Sample.adopted) := by
    decide +kernel
  exact ⟨hfenced, provider_fencing.1 _ _ Sample.adopted Sample.adopted _ (by simp) hfenced _
    (by simp) rfl (UInt64.le_refl _)⟩

end ResourceProvider
end Archon.Node
