import BallGame.Protocol.Stream
import BallGame.Server.RequestIndices

/-!
# The receive buffers

Server and client write the terminator behind the bytes received before they look at the
result of `recv`. The client leaves one place of its buffer free, the server does not.

* `receiver_inBounds_iff`: the thread `socket_recv_thread` of the client;
* `indices_in_bounds_iff`: both programs stay within their arrays if no `recv` fails and none
  fills the buffer of the server, and only then.
-/

namespace BallGame.Protocol

open Library Server Client

/-! ## The receiving thread of the client -/

/-- Where the thread `socket_recv_thread` stands. -/
inductive ReceiverPlace where
  /-- `while (keep_running)`. -/
  | test
  | receive
  | exited
  deriving DecidableEq

structure Receiver where
  ballListManager : Client.BallListManager
  keepRunning : Bool
  place : ReceiverPlace
  indices : List ArrayIndex

inductive ReceiverLabel where
  | test
  /-- One `recv`, with what the allocator does during the update. -/
  | recv (result : RecvResult) (env : UpdateEnv)
  /-- Another thread clears `keep_running`. -/
  | stop

def receiverStep (width height : Int) (s : Receiver) : ReceiverLabel → Except Stuck Receiver
  | .test =>
    if s.place = .test then
      .ok { s with place := if s.keepRunning then .receive else .exited }
    else
      .error .blocked
  | .recv result env =>
    -- the size passed to recv is sizeof(recv_buf) - 1
    if s.place = .receive ∧ result.bytes.length ≤ bufsiz - 1 then
      let indices := s.indices ++ [⟨.recvBufEnd, result.len⟩]
      if result.len ≤ 0 then
        .ok { s with keepRunning := false, place := .exited, indices := indices }
      else do
        let m ← updateBallListFromSerialized s.ballListManager (cString result.bytes) width height
          env
        .ok { s with ballListManager := m, place := .test, indices := indices }
    else
      .error .blocked
  | .stop => .ok { s with keepRunning := false }

def receiverStart : Receiver := ⟨Client.ballManagerInit, true, .test, []⟩

/-- `recv` did not fail. -/
def ReceiverLabel.Answered : ReceiverLabel → Prop
  | .recv result _ => result.len ≠ -1
  | .test | .stop => True

/-- A step records the index it uses, and this is in bounds if `recv` did not fail. -/
theorem receiverStep_indices {width height : Int} {s s' : Receiver} {l : ReceiverLabel}
    (h : receiverStep width height s l = .ok s') :
    ∃ used, s'.indices = s.indices ++ used ∧ ((∀ a ∈ used, a.InBounds) ↔ l.Answered) := by
  cases l with
  | test =>
    simp only [receiverStep] at h
    split at h
    · cases h
      exact ⟨[], by simp, by simp [ReceiverLabel.Answered]⟩
    · cases h
  | stop =>
    cases h
    exact ⟨[], by simp, by simp [ReceiverLabel.Answered]⟩
  | recv result env =>
    simp only [receiverStep] at h
    split at h
    · rename_i hfits
      have hused : (∀ a ∈ [⟨IndexSite.recvBufEnd, result.len⟩], ArrayIndex.InBounds a) ↔
          ReceiverLabel.Answered (.recv result env) := by
        have hle : result.bytes.length ≤ bufsiz - 1 := hfits.2
        simp only [List.forall_mem_singleton, ArrayIndex.InBounds, IndexSite.size,
          ReceiverLabel.Answered]
        cases result with
        | failed => simp [RecvResult.len]
        | data bytes =>
          simp only [RecvResult.bytes, bufsiz] at hle
          simp only [RecvResult.len, bufsiz]
          omega
      split at h
      · cases h
        exact ⟨_, rfl, hused⟩
      · obtain ⟨m, hm, he⟩ := bind_ok.mp h
        cases he
        exact ⟨_, rfl, hused⟩
    · cases h

theorem receiver_inBounds_iff {width height : Int} {ls : List ReceiverLabel} {s : Receiver}
    (h : run (receiverStep width height) receiverStart ls = .ok s) :
    (∀ u, Visits (receiverStep width height) receiverStart ls u → ∀ a ∈ u.indices, a.InBounds) ↔
      ∀ l ∈ ls, l.Answered := by
  rw [← throughout_iff_forall h]
  apply visits_iff_throughout_of_keeps (I := fun u => ∀ a ∈ u.indices, a.InBounds) _ _ _ _ h
  · intro u l u' hu hl hok a ha
    obtain ⟨used, hindices, hused⟩ := receiverStep_indices hok
    rw [hindices] at ha
    rcases List.mem_append.mp ha with ha | ha
    · exact hu a ha
    · exact hused.mpr hl a ha
  · exact fun _ hu => hu
  · intro u l u' _ hok hu'
    obtain ⟨used, hindices, hused⟩ := receiverStep_indices hok
    apply hused.mp
    intro a ha
    apply hu' a
    rw [hindices]
    exact List.mem_append_right _ ha
  · simp [receiverStart]

/-! ## Both programs -/

/-- **Array indices from the receive to the worker.** In every run of the server threads with
any number of workers, whatever `recv` returns, each index is within its array and each task
stored has a length between 0 and `BUFSIZ`, exclusive, if no `recv` of the run failed and none
filled the buffer, and only then; the slots of the ring and the bytes copied by `memcpy` are
within their arrays in any case. The client stays within `recv_buf` if no `recv` of its run
failed, and only then. -/
theorem indices_in_bounds_iff (n : Nat) (width height : Int) :
    (∀ (ls : List (RequestLabel n)) (s : RequestPath n),
      run requestStep requestStart ls = .ok s →
        ((∀ u, Visits requestStep requestStart ls u → u.InBounds) ↔ ∀ l ∈ ls, l.Moderate)) ∧
    (∀ ls : List (RequestLabel n),
      Ends (fun s => ∀ a ∈ s.indices, a.site.NoEnd → a.InBounds) (fun e => e = Stuck.blocked)
        (run requestStep requestStart ls)) ∧
    ∀ (ls : List ReceiverLabel) (s : Receiver),
      run (receiverStep width height) receiverStart ls = .ok s →
        ((∀ u, Visits (receiverStep width height) receiverStart ls u →
          ∀ a ∈ u.indices, a.InBounds) ↔ ∀ l ∈ ls, l.Answered) :=
  ⟨fun _ _ h => requestRun_inBounds_iff h, requestRun_slots,
    fun _ _ h => receiver_inBounds_iff h⟩

/-- The server receives one byte, the client learns that the connection has ended. -/
theorem indices_in_bounds_iff_oneByte :
    (∃ s, run requestStep (requestStart : RequestPath 4)
        [.other (.advance .main none), .recv 5 (.data ['a'])] = .ok s ∧ s.InBounds) ∧
      ∃ s, run (receiverStep 800 480) receiverStart [.test, .recv (.data []) ⟨true, some⟩] = .ok s ∧
        ∀ a ∈ s.indices, a.InBounds := by
  obtain ⟨hserver, _, hclient⟩ := indices_in_bounds_iff 4 800 480
  obtain ⟨s, hs⟩ : ∃ s, run requestStep (requestStart : RequestPath 4)
      [.other (.advance .main none), .recv 5 (.data ['a'])] = .ok s := ⟨_, rfl⟩
  obtain ⟨r, hr⟩ : ∃ r, run (receiverStep 800 480) receiverStart
      [.test, .recv (.data []) ⟨true, some⟩] = .ok r := ⟨_, rfl⟩
  refine ⟨⟨s, hs, (hserver _ s hs).mpr ?_ s (Visits.last hs)⟩,
    ⟨r, hr, (hclient _ r hr).mpr ?_ r (Visits.last hr)⟩⟩
  · simp [RequestLabel.Moderate, RecvResult.len, bufsiz]
  · simp [ReceiverLabel.Answered, RecvResult.len]

/-- The main thread enters its loop and receives as many bytes as the buffer holds. -/
theorem recv_full_run {bytes : List Char} (hfull : bytes.length = 8192) :
    ∃ s, run requestStep (requestStart : RequestPath 4)
        [.other (.advance .main none), .recv 5 (.data bytes)] = .ok s ∧
      ⟨.bufEnd, 8192⟩ ∈ s.indices := by
  have hlen : (RecvResult.data bytes).len = 8192 := by simp [RecvResult.len, hfull]
  have hfits : (RecvResult.data bytes).bytes.length ≤ bufsiz := hfull.le
  have htask : requestTask 5 (.data bytes) = some (receivedTask 5 bytes) := by
    rw [requestTask, hlen]
    rfl
  have hrun : ∃ s, run requestStep (requestStart : RequestPath 4)
      [.other (.advance .main none), .recv 5 (.data bytes)] = .ok s := by
    simp only [run, requestStep, requestThreads, if_pos hfits, htask]
    exact ⟨_, rfl⟩
  obtain ⟨s, hs⟩ := hrun
  obtain ⟨s₁, _, hs₁⟩ := run_cons_ok.mp hs
  obtain ⟨s₂, hs₂, hnil⟩ := run_cons_ok.mp hs₁
  cases hnil
  refine ⟨s, hs, ?_⟩
  rw [(requestStep_ok hs₂).2]
  apply List.mem_append_right
  rw [usedIndices, recvIndices, hlen]
  exact List.mem_cons_self ..

/-- A `recv` that fails, and one that fills the buffer. -/
theorem terminator_out_of_bounds :
    (∃ s, run requestStep (requestStart : RequestPath 4)
        [.other (.advance .main none), .recv 5 .failed] = .ok s ∧
      ⟨.bufEnd, -1⟩ ∈ s.indices ∧ ¬ s.InBounds) ∧
    (∃ s, run requestStep (requestStart : RequestPath 4)
        [.other (.advance .main none), .recv 5 (.data (List.replicate 8192 'a'))] = .ok s ∧
      ⟨.bufEnd, 8192⟩ ∈ s.indices ∧ ¬ s.InBounds) ∧
    ∃ s, run (receiverStep 800 480) receiverStart [.test, .recv .failed ⟨true, some⟩] = .ok s ∧
      ⟨.recvBufEnd, -1⟩ ∈ s.indices ∧ ¬ ∀ a ∈ s.indices, a.InBounds := by
  have hlow : ¬ ArrayIndex.InBounds ⟨.bufEnd, -1⟩ := by decide
  have hhigh : ¬ ArrayIndex.InBounds ⟨.bufEnd, 8192⟩ := by decide
  have hclient : ¬ ArrayIndex.InBounds ⟨.recvBufEnd, -1⟩ := by decide
  obtain ⟨s, hs, hmem⟩ := recv_full_run (List.length_replicate (n := 8192) (a := 'a'))
  refine ⟨⟨_, rfl, List.mem_singleton_self _, ?_⟩, ⟨s, hs, hmem, ?_⟩, ⟨_, rfl,
    List.mem_singleton_self _, ?_⟩⟩
  · exact fun h => hlow (h.indices _ (List.mem_singleton_self _))
  · exact fun h => hhigh (h.indices _ hmem)
  · exact fun h => hclient (h _ (List.mem_singleton_self _))

end BallGame.Protocol
