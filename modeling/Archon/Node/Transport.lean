import Archon.Lib.Runs

/-! The encrypted transport, as the reading end sees it. The peer's writes become messages of
an authenticated channel that opens them in order, each exactly from its own ciphertext; the
network delivers whatever frames it likes. A read decrypts into the buffer that later reads
drain, and a decryption that fails leaves that buffer as it is. -/
namespace Archon.Node.Transport

/-- Largest plaintext one message can carry. -/
def maxPlaintext : ℕ := 65519

/-- Successive pieces of the data, the last one possibly shorter. -/
def chunks (size : ℕ) (data : List UInt8) : List (List UInt8) :=
  (List.range ((data.length + size - 1) / size)).map fun i => (data.drop (i * size)).take size

/-- What a read call returns. -/
inductive Answer where
  | bytes (data : List UInt8)
  | closed
  | undecryptable (frame : List UInt8)
  deriving DecidableEq

/-- The bytes an answer hands to the caller. -/
def Answer.data : Answer → List UInt8
  | .bytes data => data
  | _ => []

/-- It reports a frame that was not empty and did not decrypt. -/
def Answer.Fails : Answer → Prop
  | .undecryptable frame => frame ≠ []
  | _ => False

instance : DecidablePred Answer.Fails
  | .bytes _ => .isFalse id
  | .closed => .isFalse id
  | .undecryptable frame => inferInstanceAs (Decidable (frame ≠ []))

/-- The messages of the peer, the frames that wait on the socket, and the reading end: how many
messages it has opened, what is pending, and what its read calls have returned. -/
structure Link where
  sent : List (List UInt8)
  frames : List (List UInt8)
  received : ℕ
  pending : List UInt8
  answers : List Answer
  deriving DecidableEq

def Link.new : Link := ⟨[], [], 0, [], []⟩

inductive Event where
  | write (data : List UInt8)
  | deliver (frame : List UInt8)
  | read (size : ℕ)

/-- The bytes the peer writes. -/
def Event.data : Event → List UInt8
  | .write data => data
  | _ => []

/-- The ciphertext of each message, by its number and plaintext. -/
abbrev Cipher := ℕ → List UInt8 → List UInt8

/-- What a failing decryption leaves in the buffer, by the call and the position. -/
abbrev Residue := ℕ → ℕ → UInt8

namespace Link

/-- The next plaintext, exactly from the next ciphertext. -/
def readMessage (cipher : Cipher) (self : Link) (frame : List UInt8) : Option (List UInt8) :=
  match self.sent[self.received]? with
  | some plaintext => if frame = cipher self.received plaintext then some plaintext else none
  | none => none

/-- Read frames until something is pending, or a frame is missing or fails. -/
def fill (cipher : Cipher) (residue : ℕ → UInt8) : List (List UInt8) → Link → Link × Option Answer
  | [], self => ({ self with frames := [] }, if self.pending = [] then some .closed else none)
  | frame :: rest, self =>
    if self.pending = [] then
      match self.readMessage cipher frame with
      | some plaintext =>
        fill cipher residue rest { self with received := self.received + 1, pending := plaintext }
      | none =>
        ({ self with frames := rest, pending := (List.range frame.length).map residue },
          some (.undecryptable frame))
    else ({ self with frames := frame :: rest }, none)

def read (cipher : Cipher) (residue : ℕ → UInt8) (self : Link) (size : ℕ) : Link × Answer :=
  if size = 0 then (self, .bytes [])
  else
    match fill cipher residue self.frames self with
    | (filled, some failed) => (filled, failed)
    | (filled, none) =>
      ({ filled with pending := filled.pending.drop size }, .bytes (filled.pending.take size))

/-- An empty write sends nothing. -/
def write (self : Link) (data : List UInt8) : Link :=
  { self with sent := self.sent ++ chunks maxPlaintext data }

def step (cipher : Cipher) (residue : Residue) (self : Link) : Event → Link
  | .write data => self.write data
  | .deliver frame => { self with frames := self.frames ++ [frame] }
  | .read size =>
    let (next, answer) := self.read cipher (residue self.answers.length) size
    { next with answers := self.answers ++ [answer] }

/-- The bytes that successful reads have returned. -/
def delivered (self : Link) : List UInt8 := self.answers.flatMap Answer.data

/-- A frame that was not empty has failed to decrypt. -/
def Spoiled (self : Link) : Prop :=
  ∃ answer ∈ self.answers, answer.Fails

instance (self : Link) : Decidable self.Spoiled :=
  inferInstanceAs (Decidable (∃ answer ∈ self.answers, answer.Fails))

/-- No read with room in its buffer follows such a failure. -/
def Sound (self : Link) : Event → Prop
  | .read size => size = 0 ∨ ¬self.Spoiled
  | _ => True

instance (self : Link) : DecidablePred self.Sound
  | .write _ => .isTrue trivial
  | .deliver _ => .isTrue trivial
  | .read size => inferInstanceAs (Decidable (size = 0 ∨ ¬self.Spoiled))

end Link

/-- What the peer has written. -/
def written (events : List Event) : List UInt8 := events.flatMap Event.data

def run (cipher : Cipher) (residue : Residue) (events : List Event) : Link :=
  Runs.run (Link.step cipher residue) .new events

/-! What is sent. -/

theorem flatten_take_chunks (size : ℕ) (data : List UInt8) (n : ℕ) :
    ((List.range n).map fun i => (data.drop (i * size)).take size).flatten = data.take (n * size) := by
  induction n with
  | zero => simp
  | succ n ih =>
    rw [List.range_succ, List.map_append, List.flatten_append, ih, Nat.succ_mul, List.take_add]
    simp

theorem flatten_chunks {size : ℕ} (hsize : 0 < size) (data : List UInt8) :
    (chunks size data).flatten = data := by
  rw [chunks, flatten_take_chunks]
  apply List.take_of_length_le
  have hcover := Nat.div_add_mod (data.length + size - 1) size
  have hrest := Nat.mod_lt (data.length + size - 1) hsize
  rw [Nat.mul_comm]
  omega

namespace Link
variable {cipher : Cipher} {residue : ℕ → UInt8} {frames : List (List UInt8)} {self : Link}

/-! What a read does. -/

/-- All that was returned and all that is pending is what the opened messages carry. -/
structure Authentic (link : Link) : Prop where
  received : link.received ≤ link.sent.length
  bytes : link.delivered ++ link.pending = (link.sent.take link.received).flatten

theorem readMessage_eq_some {frame plaintext : List UInt8} :
    self.readMessage cipher frame = some plaintext ↔
      self.sent[self.received]? = some plaintext ∧ frame = cipher self.received plaintext := by
  unfold readMessage
  cases self.sent[self.received]? with
  | none => simp
  | some next =>
    dsimp only
    constructor
    · intro h
      split at h
      · rename_i hframe
        cases h
        exact ⟨rfl, hframe⟩
      · cases h
    · rintro ⟨hnext, rfl⟩
      cases hnext
      exact if_pos rfl

theorem fill_frame : (fill cipher residue frames self).1.sent = self.sent ∧
    (fill cipher residue frames self).1.answers = self.answers := by
  induction frames generalizing self with
  | nil => exact ⟨rfl, rfl⟩
  | cons frame rest ih =>
    unfold fill
    split
    · split
      · exact ih
      · exact ⟨rfl, rfl⟩
    · exact ⟨rfl, rfl⟩

theorem fill_failed {answer : Answer} (h : (fill cipher residue frames self).2 = some answer) :
    answer = .closed ∨ ∃ frame, answer = .undecryptable frame := by
  induction frames generalizing self with
  | nil =>
    simp only [fill] at h
    split at h
    · cases h
      exact .inl rfl
    · cases h
  | cons frame rest ih =>
    unfold fill at h
    split at h
    · split at h
      · exact ih h
      · cases h
        exact .inr ⟨frame, rfl⟩
    · cases h

/-- Unless a frame that is not empty fails, the buffer holds what the messages carry. -/
theorem fill_authentic (h : self.Authentic)
    (hfailed : ∀ frame, (fill cipher residue frames self).2 = some (.undecryptable frame) → frame = []) :
    (fill cipher residue frames self).1.Authentic := by
  induction frames generalizing self with
  | nil => exact ⟨h.received, h.bytes⟩
  | cons frame rest ih =>
    unfold fill at hfailed ⊢
    split at hfailed
    · rename_i hpending
      rw [if_pos hpending]
      cases hmessage : self.readMessage cipher frame with
      | some plaintext =>
        rw [hmessage] at hfailed
        obtain ⟨hnext, -⟩ := readMessage_eq_some.mp hmessage
        obtain ⟨hlt, -⟩ := List.getElem?_eq_some_iff.mp hnext
        refine ih ⟨hlt, ?_⟩ hfailed
        have hbytes := h.bytes
        rw [hpending, List.append_nil] at hbytes
        rw [List.take_add_one, hnext, List.flatten_append, ← hbytes]
        simp [delivered]
      | none =>
        rw [hmessage] at hfailed
        obtain rfl := hfailed frame rfl
        exact ⟨h.received, by simpa [hpending, delivered] using h.bytes⟩
    · rename_i hpending
      rw [if_neg hpending]
      exact ⟨h.received, h.bytes⟩

theorem read_authentic (h : self.Authentic) {size : ℕ} (hsize : size ≠ 0)
    (hopened : ∀ frame, (self.read cipher residue size).2 = .undecryptable frame → frame = []) :
    (self.read cipher residue size).1.received ≤ (self.read cipher residue size).1.sent.length ∧
      self.delivered ++ (self.read cipher residue size).2.data ++
          (self.read cipher residue size).1.pending =
        ((self.read cipher residue size).1.sent.take
          (self.read cipher residue size).1.received).flatten := by
  have hanswers := (@fill_frame cipher residue self.frames self).2
  have hfill := @fill_authentic cipher residue self.frames self h
  unfold read at hopened ⊢
  rw [if_neg hsize] at hopened ⊢
  cases hfilled : fill cipher residue self.frames self with
  | mk filled failed =>
    rw [hfilled] at hanswers hfill hopened
    cases failed with
    | none =>
      have hauthentic := hfill fun frame hframe => by cases hframe
      have hbytes := hauthentic.bytes
      rw [delivered, hanswers] at hbytes
      refine ⟨hauthentic.received, ?_⟩
      dsimp only [Answer.data]
      rw [List.append_assoc, List.take_append_drop]
      exact hbytes
    | some answer =>
      have hauthentic := hfill fun frame hframe => hopened frame (Option.some.inj hframe)
      have hdata : answer.data = [] := by
        obtain rfl | ⟨frame, rfl⟩ := fill_failed (congrArg Prod.snd hfilled)
        · rfl
        · rfl
      have hbytes := hauthentic.bytes
      rw [delivered, hanswers] at hbytes
      refine ⟨hauthentic.received, ?_⟩
      dsimp only
      rw [hdata, List.append_nil]
      exact hbytes

theorem delivered_read (cipher : Cipher) (residue : Residue) (link : Link) (size : ℕ) :
    (link.step cipher residue (.read size)).delivered =
      link.delivered ++ (link.read cipher (residue link.answers.length) size).2.data := by
  simp [step, delivered]

theorem sent_read (size : ℕ) : (self.read cipher residue size).1.sent = self.sent := by
  unfold read
  split
  · rfl
  · have hsent := (@fill_frame cipher residue self.frames self).1
    split <;> rename_i hfill <;> rw [hfill] at hsent <;> exact hsent

theorem sent_step (cipher : Cipher) (residue : Residue) (link : Link) (event : Event) :
    (link.step cipher residue event).sent = link.sent ++ chunks maxPlaintext event.data := by
  cases event with
  | write data => rfl
  | deliver frame => simp [step, Event.data, chunks, maxPlaintext]
  | read size => simpa [step, Event.data, chunks, maxPlaintext] using sent_read size

end Link

/-! Runs. -/

section Runs
variable {cipher : Cipher} {residue : Residue}

/-- What is returned is what was written, and is still backed by the opened messages unless a
frame failed. -/
structure Backed (link : Link) : Prop where
  authentic : link.delivered <+: link.sent.flatten
  unspoiled : ¬link.Spoiled → link.Authentic

theorem spoiled_concat {answers : List Answer} {answer : Answer} {link : Link}
    (hanswers : link.answers = answers ++ [answer]) :
    link.Spoiled ↔ (∃ answer ∈ answers, answer.Fails) ∨ answer.Fails := by
  simp [Link.Spoiled, hanswers, or_and_right, exists_or]

theorem backed_read {link : Link} (h : Backed link) (hauthentic : link.Authentic) {size : ℕ}
    (hsize : size ≠ 0) : Backed (link.step cipher residue (.read size)) := by
  have hsent := @Link.sent_read cipher (residue link.answers.length) link size
  have hdelivered := Link.delivered_read cipher residue link size
  by_cases hopened : ∀ frame, (link.read cipher (residue link.answers.length) size).2 =
      .undecryptable frame → frame = []
  · obtain ⟨hreceived, hbytes⟩ := Link.read_authentic hauthentic hsize hopened
    rw [← hdelivered] at hbytes
    have hstep : (link.step cipher residue (.read size)).Authentic := ⟨hreceived, hbytes⟩
    refine ⟨?_, fun _ => hstep⟩
    calc (link.step cipher residue (.read size)).delivered
      _ <+: _ := List.prefix_append _ _
      _ = _ := hstep.bytes
      _ <+: _ := (List.take_prefix _ _).flatten
  · push Not at hopened
    obtain ⟨frame, hanswer, hframe⟩ := hopened
    refine ⟨?_, fun hclean => absurd ?_ hclean⟩
    · simp only [hdelivered, hanswer, Answer.data, List.append_nil]
      exact h.authentic.trans (by simp [Link.step, hsent])
    · exact (spoiled_concat rfl).mpr (.inr (hanswer ▸ hframe))

theorem backed_step {link : Link} (h : Backed link) {event : Event} (hsound : link.Sound event) :
    Backed (link.step cipher residue event) := by
  cases event with
  | write data =>
    have hsent : link.sent.flatten <+: (link.sent ++ chunks maxPlaintext data).flatten := by
      rw [List.flatten_append]
      exact List.prefix_append _ _
    refine ⟨h.authentic.trans hsent, fun hclean => ?_⟩
    have hauthentic := h.unspoiled hclean
    refine ⟨hauthentic.received.trans (by simp [Link.step, Link.write]), ?_⟩
    change link.delivered ++ link.pending =
      ((link.sent ++ chunks maxPlaintext data).take link.received).flatten
    rw [List.take_append_of_le_length hauthentic.received]
    exact hauthentic.bytes
  | deliver frame =>
    refine ⟨h.authentic, fun hclean => ?_⟩
    exact ⟨(h.unspoiled hclean).received, (h.unspoiled hclean).bytes⟩
  | read size =>
    by_cases hsize : size = 0
    · subst hsize
      have hdelivered : (link.step cipher residue (.read 0)).delivered = link.delivered := by
        simp [Link.step, Link.read, Link.delivered, Answer.data]
      refine ⟨hdelivered ▸ h.authentic, fun hclean => ?_⟩
      rw [spoiled_concat rfl] at hclean
      have hauthentic := h.unspoiled fun hspoiled => hclean (.inl hspoiled)
      refine ⟨hauthentic.received, ?_⟩
      rw [hdelivered]
      exact hauthentic.bytes
    · have hauthentic := h.unspoiled (hsound.resolve_left hsize)
      exact backed_read h hauthentic hsize

/-- The bytes of every good run are those that were written, in order. -/
theorem backed_run {events : List Event}
    (hsound : Runs.Along (Link.step cipher residue) Link.Sound .new events) :
    Backed (run cipher residue events) := by
  refine Runs.invariant_along ⟨List.prefix_rfl, fun _ => ⟨le_rfl, rfl⟩⟩ ?_ events hsound
  intro before event _ hgood h
  rw [Runs.run_concat]
  exact backed_step h hgood

theorem sent_run (events : List Event) : (run cipher residue events).sent.flatten = written events := by
  induction events using List.reverseRecOn with
  | nil => rfl
  | append_singleton events event ih =>
    rw [run, Runs.run_concat, Link.sent_step, List.flatten_append, flatten_chunks (by decide)]
    exact (congrArg (· ++ event.data) ih).trans (by simp [written])

/-- As long as nobody reads on after a frame that was not empty failed to decrypt, what the
reads return is what the peer wrote, in order and from the start. -/
theorem delivered_authentic (cipher : Cipher) (residue : Residue) {events : List Event}
    (hsound : Runs.Along (Link.step cipher residue) Link.Sound .new events) :
    (run cipher residue events).delivered <+: written events := by
  rw [← @sent_run cipher residue]
  exact (backed_run hsound).authentic

/-- Sixteen bytes of tag after the plaintext. -/
def tagged : Cipher := fun _ plaintext => plaintext ++ List.replicate 16 0

/-- The failure itself does no harm: it is the last read. -/
theorem failure_then_silence :
    (run tagged (fun _ _ => 0) [.write [1, 2, 3], .deliver (tagged 0 [1, 2, 3]), .read 2, .read 8,
      .deliver (List.replicate 19 7), .read 8]).delivered <+: [1, 2, 3] :=
  delivered_authentic tagged (fun _ _ => 0) (by decide)

/-- The buffer that a failed decryption has filled is handed to the next read. -/
theorem tampered_frame_read :
    ¬(run tagged (fun _ _ => 0) [.write [1, 2, 3], .deliver (List.replicate 19 7), .read 8,
      .read 8]).delivered <+: written [.write [1, 2, 3], .deliver (List.replicate 19 7), .read 8,
      .read 8] := by
  decide

end Runs
end Archon.Node.Transport
