import Muduo.ProtobufCodecLite.RoundTrip
import Muduo.TcpConnection.Output

/-!
# Muduo.Messages

Messages over a connection, from `send` at one end to `messageCallback_` at the other.
-/

namespace Muduo.ProtobufCodecLite

open Lib List Buffer TcpConnection

variable {Message : Type} {codec : ProtobufCodecLite Message}

/-- The peer, however it reads what the kernel has taken, gets the first of the messages `ms` that
were sent, in order and without an error; and all of them, once nothing is left to be read or in
`outputBuffer_`. -/
def Delivers (codec : ProtobufCodecLite Message) (s : OutputState) : Prop :=
  ∀ (ms : List Message) (encodings : List (List UInt8)) (chunks : List CharRange)
    (unread : List UInt8), (∀ m ∈ ms, codec.Fits m) → ms.mapM codec.encode = .ok encodings →
    s.sent = encodings.flatten → chunks.flatMap (·.data) ++ unread = acceptedBytes s.conn.log →
    Outcome (fun r : Receiver Message => r.calls <+: ms.map .message ∧
        (unread ++ s.conn.outputBuffer.content = [] →
          r.calls = ms.map .message ∧ r.inputBuffer.content = []))
      (TooLong (kNewVector + (chunks.flatMap (·.data)).length))
      (run codec.receive .create chunks)

theorem delivers_of_stream (hlaw : codec.Lawful) (hpasses : codec.PassesAll) (hroom : codec.HasRoom)
    {s : OutputState}
    (hstream : acceptedBytes s.conn.log ++ s.conn.outputBuffer.content = s.sent) :
    codec.Delivers s := by
  intro ms encodings chunks unread hfits hencode hsent hread
  obtain rfl := Except.ok.inj (hencode.symm.trans (mapM_encode hlaw hfits))
  have hframes := drains_frames hlaw hpasses hfits
  rw [hsent, ← hread, append_assoc, ← flatMap_def] at hstream
  rw [← hstream] at hframes
  obtain ⟨d₁, d₂, hd₁, hwait, -, heq⟩ := stable_scan.drains_cut trivial hframes rfl
  have hms : ms = d₁.out ++ d₂.out := congrArg Drained.out heq
  have hreceived := Outcome.run_sim_cost (R := codec.HasRead) (E := TooLong)
    (fun bs (c : CharRange) => bs ++ c.data)
    (fun r : Receiver Message => r.inputBuffer.buffer.length)
    (fun c : CharRange => c.data.length) TooLong.mono
    (fun r bs c h _ => HasRead.receive hroom h c) (hasRead_create codec) (meets_true _ chunks)
  rw [← flatMap_eq_foldl, ← length_flatMap] at hreceived
  refine hreceived.mono (fun r hr => ?_) fun _ he => ?_
  · obtain ⟨hcalls, hcontent⟩ := hr.drained d₁ hd₁ hwait
    refine ⟨⟨d₂.out.map .message, by rw [hcalls, hms, map_append]⟩, fun hnil => ?_⟩
    rw [hnil, append_nil] at hframes
    rw [hcalls, hcontent, hd₁.unique hframes]
    exact ⟨rfl, rfl⟩
  · rwa [Receiver.create, length_newBuffer] at he

/-- **Messages over a connection** are delivered after every run of the sender. -/
theorem messages_delivered (hlaw : codec.Lawful) (hpasses : codec.PassesAll) (hroom : codec.HasRoom)
    {loop : EventLoop} {fd : Nat} (hfd : Unused loop fd) (addr : Nat) (cb : Callbacks)
    {es : List OutputEvent} (hes : ∀ e ∈ es, e.NoReset) :
    Outcome codec.Delivers (OutputTooLong (kInitialVector + (es.map (·.message.length)).sum))
      (establish loop addr fd cb >>= fun c => run OutputState.step ⟨c, []⟩ es) := by
  obtain ⟨c, hc, hnew⟩ := establish_spec hfd addr cb
  have hrun := Outcome.run_cost (P := OutputInv) (E := OutputTooLong)
    (fun s : OutputState => kInitialVector + s.sent.length)
    (fun e : OutputEvent => e.message.length) OutputTooLong.mono
    (fun s e hs he => step_output hs he) (OutputInv.of_established hnew) (meets_of_forall _ hes)
  rw [hc]
  exact hrun.mono (fun s hs => delivers_of_stream hlaw hpasses hroom hs.stream) fun f hf => hf

/-- The kernel takes a message in two pieces. -/
theorem messages_delivered_twoPieces :
    ∃ s, (establish idleLoop 1 5 ⟨true, none⟩ >>= fun c => run OutputState.step ⟨c, []⟩
        [.send ⟨testWire, by decide⟩ (.wrote 6), .handleWrite (.wrote 17)]) = .ok s ∧
      rpcBytes.Delivers s :=
  (messages_delivered ⟨fun _ => rfl, fun _ => rfl⟩ (fun _ => rfl) (by unfold HasRoom; decide)
    unused_idleLoop 1 ⟨true, none⟩ (by decide)).exists_ok fun e he => absurd he.2 (by decide)

end Muduo.ProtobufCodecLite
