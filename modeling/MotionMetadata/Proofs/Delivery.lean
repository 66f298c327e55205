import MotionMetadata.Proofs.Transactions

/-!
# Every packet is delivered once

A stream is called in any order: packets are pushed one by one or as bytes, and what is due is
taken out. Whatever the calls, the packets that came in are those that went out and those that
are still pending, each as often as it came. A step shows it for one call, and a run adds up
its steps.

A synchronous stream sorts what it hands over. The comparison of two timestamps is a total
order, so there is one way only to sort the due packets that leaves ties as they arrived, and
that is the one the stream takes.
-/

namespace MotionMetadata

/-! ## The order of the timeline -/

namespace Timestamp

/-- Two places that may be unknown compare like numbers, with the unknown above them all. -/
theorem isLE_knownFirst {a b : Option UInt64} :
    (knownFirst a b).isLE ↔ ∀ y ∈ b, ∃ x ∈ a, x.toNat ≤ y.toNat := by
  cases a <;> cases b <;> simp [knownFirst, Nat.isLE_compare]

instance : Std.TransCmp knownFirst where
  eq_swap := by
    intro a b
    cases a <;> cases b <;> simp only [knownFirst, Ordering.swap_eq, Ordering.swap_lt,
      Ordering.swap_gt]
    exact Std.OrientedCmp.eq_swap
  isLE_trans := by
    intro a b c hab hbc
    rw [isLE_knownFirst] at hab hbc ⊢
    intro z hz
    obtain ⟨y, hy, hyz⟩ := hbc z hz
    obtain ⟨x, hx, hxy⟩ := hab y hy
    exact ⟨x, hx, hxy.trans hyz⟩

theorem eq_of_knownFirst {a b : Option UInt64} (h : knownFirst a b = .eq) : a = b := by
  cases a <;> cases b <;> simp only [knownFirst, reduceCtorEq] at h
  · rfl
  · rw [UInt64.toNat_inj.1 (Nat.compare_eq_eq.1 h)]

instance : Std.TransCmp order where
  eq_swap := by
    intro a b
    rw [order, order, Ordering.swap_then, ← Std.OrientedCmp.eq_swap, ← Std.OrientedCmp.eq_swap]
  isLE_trans := by
    intro a b c hab hbc
    rw [order, Ordering.isLE_then_iff_or] at *
    rcases hab with hab | ⟨hab, hab'⟩
    · refine .inl ?_
      rcases hbc with hbc | ⟨hbc, _⟩
      · exact Std.TransCmp.lt_trans hab hbc
      · exact Std.TransCmp.lt_of_lt_of_eq hab hbc
    · rw [eq_of_knownFirst hab]
      exact hbc.imp_right fun ⟨hbc, hbc'⟩ => ⟨hbc, Std.TransCmp.isLE_trans hab' hbc'⟩

instance : Std.LawfulEqCmp order where
  eq_of_compare := by
    intro a b h
    obtain ⟨htime, hframe⟩ := Ordering.then_eq_eq.1 h
    cases a
    cases b
    cases eq_of_knownFirst htime
    cases eq_of_knownFirst hframe
    rfl

theorem notAfter_trans (a b c : Timestamp) (hab : a.notAfter b) (hbc : b.notAfter c) :
    a.notAfter c :=
  Std.TransCmp.isLE_trans hab hbc

theorem notAfter_total (a b : Timestamp) : (a.notAfter b || b.notAfter a) := by
  have hswap : a.order b = (b.order a).swap := Std.OrientedCmp.eq_swap
  rw [notAfter, notAfter, hswap]
  cases b.order a <;> rfl

theorem notAfter_refl (a : Timestamp) : a.notAfter a := by
  simpa using notAfter_total a a

/-- Timestamps that tie are the same. -/
theorem notAfter_antisymm {a b : Timestamp} (hab : a.notAfter b) (hba : b.notAfter a) : a = b :=
  Std.LawfulEqCmp.eq_of_compare (Std.OrientedCmp.isLE_antisymm hab hba)

theorem isDue_eq (stamp : Timestamp) (frame : UInt64) :
    stamp.isDue frame = stamp.frame.all (· ≤ frame) := by
  rw [isDue]
  cases stamp.frame <;> rfl

theorem not_isDue (stamp : Timestamp) (frame : UInt64) :
    (!stamp.isDue frame) = stamp.frame.any (frame < ·) := by
  rw [isDue_eq]
  cases stamp.frame with
  | none => rfl
  | some own =>
      show (!decide (own ≤ frame)) = decide (frame < own)
      simp only [← decide_not, UInt64.not_le]

end Timestamp

/-! ## Sorting -/

/-- What is handed over is what is due, in the order of the timeline, and where timestamps tie,
in the order of arrival. -/
structure InTimelineOrder (due handed : List TimedPacket) : Prop where
  perm : handed.Perm due
  sorted : handed.Pairwise fun a b => a.timestamp.notAfter b.timestamp
  ties : ∀ t, handed.filter (·.timestamp = t) = due.filter (·.timestamp = t)

namespace InTimelineOrder

theorem mergeSort (due : List TimedPacket) :
    InTimelineOrder due (due.mergeSort fun a b => a.timestamp.notAfter b.timestamp) := by
  have htrans (a b c : TimedPacket) :=
    Timestamp.notAfter_trans a.timestamp b.timestamp c.timestamp
  have htotal (a b : TimedPacket) := Timestamp.notAfter_total a.timestamp b.timestamp
  have hperm := List.mergeSort_perm due fun a b => a.timestamp.notAfter b.timestamp
  refine ⟨hperm, List.pairwise_mergeSort htrans htotal due, fun t => ?_⟩
  -- Packets that tie are sorted as they stand, and sorting keeps what is sorted in order.
  have hties : (due.filter (·.timestamp = t)).Pairwise fun a b =>
      a.timestamp.notAfter b.timestamp := by
    refine List.pairwise_of_forall_mem_list fun a ha b hb => ?_
    rw [of_decide_eq_true (List.mem_filter.1 ha).2, of_decide_eq_true (List.mem_filter.1 hb).2]
    exact t.notAfter_refl
  have hkept := (List.sublist_mergeSort htrans htotal hties List.filter_sublist).filter
    (·.timestamp = t)
  rw [List.filter_filter] at hkept
  simp only [Bool.and_self] at hkept
  exact (hkept.eq_of_length (hperm.filter _).length_eq.symm).symm

/-- There is only one such order. -/
theorem unique {due handed other : List TimedPacket} (h : InTimelineOrder due handed)
    (h' : InTimelineOrder due other) : other = handed := by
  have hperm := h'.perm.trans h.perm.symm
  have hties (t : Timestamp) := (h'.ties t).trans (h.ties t).symm
  have hsorted := h.sorted
  have hsorted' := h'.sorted
  clear h h'
  induction other generalizing handed with
  | nil => exact hperm.symm.eq_nil.symm
  | cons a rest ih =>
      cases handed with
      | nil => exact hperm.eq_nil
      | cons b rest' =>
          -- Each of the two first packets is among the others, so neither is after the other.
          have hstamp : a.timestamp = b.timestamp := by
            refine Timestamp.notAfter_antisymm ?_ ?_
            · rcases List.mem_cons.1 (hperm.symm.subset (List.mem_cons_self ..)) with rfl | hb
              · exact b.timestamp.notAfter_refl
              · exact List.rel_of_pairwise_cons hsorted' hb
            · rcases List.mem_cons.1 (hperm.subset (List.mem_cons_self ..)) with rfl | ha
              · exact a.timestamp.notAfter_refl
              · exact List.rel_of_pairwise_cons hsorted ha
          have hfirst := hties b.timestamp
          rw [List.filter_cons, List.filter_cons, if_pos (decide_eq_true hstamp),
            if_pos (decide_eq_true rfl)] at hfirst
          obtain rfl : a = b := (List.cons.inj hfirst).1
          refine congrArg (a :: ·)
            (ih hperm.cons_inv (fun t => ?_) hsorted.of_cons hsorted'.of_cons)
          have hrest := hties t
          rw [List.filter_cons, List.filter_cons] at hrest
          split at hrest
          · exact (List.cons.inj hrest).2
          · exact hrest

end InTimelineOrder

/-! ## One call -/

/-- A call of a stream. -/
inductive PacketStream.Call where
  | push (packet : Packet) (timestamp : Timestamp)
  | pushBytes (data : Bytes) (timestamp : Timestamp)
  | deliver (frame : UInt64)

namespace PacketStream

variable {registry : Registry}

/-- The stream after a call, and what the call handed over. A failed call changes nothing. -/
def Call.perform (registry : Registry) (stream : PacketStream) :
    Call → PacketStream × List TimedPacket
  | .push packet timestamp => (stream.push packet timestamp, [])
  | .pushBytes data timestamp =>
    match stream.pushBytes registry data timestamp with
    | .ok (longer, _) => (longer, [])
    | .error _ => (stream, [])
  | .deliver frame => stream.deliver frame

/-- The packets that a call brings to a stream: none if one of them is bad. -/
def Call.arrivals (registry : Registry) (index : UInt32) : Call → List TimedPacket
  | .push packet timestamp => [⟨packet, timestamp, index⟩]
  | .pushBytes data timestamp =>
    match Packet.readAll registry data with
    | .ok packets => packets.map fun packet => ⟨packet, timestamp, index⟩
    | .error _ => []
  | .deliver _ => []

/-- The packets that are due at `frame`, in the order they came. -/
def due (stream : PacketStream) (frame : UInt64) : List TimedPacket :=
  stream.pending.filter fun packet => packet.timestamp.frame.all (· ≤ frame)

/-- The packets that are for later than `frame`, in the order they came. -/
def later (stream : PacketStream) (frame : UInt64) : List TimedPacket :=
  stream.pending.filter fun packet => packet.timestamp.frame.any (frame < ·)

theorem due_append_later (stream : PacketStream) (frame : UInt64) :
    (stream.due frame ++ stream.later frame).Perm stream.pending := by
  simp only [due, later, ← Timestamp.isDue_eq, ← Timestamp.not_isDue]
  exact List.filter_append_perm ..

theorem deliver_of_synchronous {stream : PacketStream} (h : stream.kind = .synchronous)
    (frame : UInt64) :
    stream.deliver frame = ({ stream with pending := stream.later frame },
      (stream.due frame).mergeSort fun a b => a.timestamp.notAfter b.timestamp) := by
  rw [deliver, h]
  simp only [List.partition_eq_filter_filter, due, later, Function.comp_def,
    ← Timestamp.isDue_eq, ← Timestamp.not_isDue]

theorem deliver_of_asynchronous {stream : PacketStream} (h : stream.kind = .asynchronous)
    (frame : UInt64) :
    stream.deliver frame = ({ stream with pending := [] }, stream.pending) := by
  rw [deliver, h]

/-- What is handed over and what stays is what was pending. -/
theorem deliver_perm (stream : PacketStream) (frame : UInt64) :
    ((stream.deliver frame).2 ++ (stream.deliver frame).1.pending).Perm stream.pending := by
  cases h : stream.kind with
  | asynchronous =>
      rw [deliver_of_asynchronous h, List.append_nil]
  | synchronous =>
      rw [deliver_of_synchronous h]
      exact ((InTimelineOrder.mergeSort _).perm.append_right _).trans
        (stream.due_append_later frame)

theorem pushBytes_eq (stream : PacketStream) (data : Bytes) (timestamp : Timestamp) :
    stream.pushBytes registry data timestamp =
      (Packet.readAll registry data).map fun packets =>
        ({ stream with
          pending := stream.pending ++ packets.map fun p => ⟨p, timestamp, stream.index⟩ },
          packets.length) := by
  rw [pushBytes]
  cases Packet.readAll registry data with
  | error e => rfl
  | ok packets =>
      show Except.ok (packets.foldl (·.push · timestamp) stream, packets.length) = _
      rw [foldl_push]
      rfl

/-- The packets that come in with a call are pending or handed over after it, and nothing else
is that was not pending before. -/
theorem Call.perform_perm (registry : Registry) (stream : PacketStream) (call : Call) :
    ((call.perform registry stream).2 ++ (call.perform registry stream).1.pending).Perm
      (stream.pending ++ call.arrivals registry stream.index) := by
  cases call with
  | push packet timestamp => exact .refl _
  | pushBytes data timestamp =>
      rw [perform, arrivals, pushBytes_eq]
      cases Packet.readAll registry data with
      | ok packets => exact .refl _
      | error e => simp [Except.map]
  | deliver frame =>
      rw [perform, arrivals, List.append_nil]
      exact stream.deliver_perm frame

/-- No call changes what a stream is. -/
theorem Call.perform_settings (registry : Registry) (stream : PacketStream) (call : Call) :
    (call.perform registry stream).1.kind = stream.kind ∧
      (call.perform registry stream).1.index = stream.index := by
  cases call with
  | push packet timestamp => exact ⟨rfl, rfl⟩
  | pushBytes data timestamp =>
      rw [perform, pushBytes_eq]
      cases Packet.readAll registry data with
      | ok packets => exact ⟨rfl, rfl⟩
      | error e => exact ⟨rfl, rfl⟩
  | deliver frame =>
      rw [perform, PacketStream.deliver]
      split
      · exact ⟨rfl, rfl⟩
      · exact ⟨rfl, rfl⟩

/-! ## A run -/

/-- A stream with what came in and what went out since it was first looked at. -/
structure Session where
  stream : PacketStream
  arrived : List TimedPacket := []
  delivered : List TimedPacket := []

namespace Session

def call (registry : Registry) (session : Session) (call : Call) : Session :=
  let (stream, handed) := call.perform registry session.stream
  { stream
    arrived := session.arrived ++ call.arrivals registry session.stream.index
    delivered := session.delivered ++ handed }

def run (registry : Registry) (session : Session) (calls : List Call) : Session :=
  calls.foldl (call registry) session

/-- The packets that were there at first, when `start` were pending, and those that came are
the ones that went and the ones that wait. -/
def Balanced (start : List TimedPacket) (session : Session) : Prop :=
  (session.delivered ++ session.stream.pending).Perm (start ++ session.arrived)

theorem Balanced.call {start : List TimedPacket} {session : Session}
    (h : Balanced start session) (call : Call) :
    Balanced start (session.call registry call) := by
  have hstep := call.perform_perm registry session.stream
  have hsum := (hstep.append_left session.delivered).trans
    (List.append_assoc .. ▸ h.append_right (call.arrivals registry session.stream.index))
  rw [← List.append_assoc, List.append_assoc start] at hsum
  exact hsum

theorem Balanced.run {start : List TimedPacket} {session : Session}
    (h : Balanced start session) (calls : List Call) :
    Balanced start (session.run registry calls) := by
  induction calls generalizing session with
  | nil => exact h
  | cons call rest ih => exact ih (h.call call)

theorem run_settings (registry : Registry) (session : Session) (calls : List Call) :
    (session.run registry calls).stream.kind = session.stream.kind ∧
      (session.run registry calls).stream.index = session.stream.index := by
  induction calls generalizing session with
  | nil => exact ⟨rfl, rfl⟩
  | cons call rest ih =>
      obtain ⟨hkind, hindex⟩ := call.perform_settings registry session.stream
      obtain ⟨hkind', hindex'⟩ := ih (session.call registry call)
      exact ⟨hkind'.trans hkind, hindex'.trans hindex⟩

end Session

end PacketStream

open PacketStream in
/-- However a stream is called, the packets that were pending at first and those that came in
are, each as often as it came, those that were handed over and those that are still pending. At
every point of such a run a synchronous stream hands over the packets that have no frame or one
up to the frame asked for, in the only way to put them in the order of the timeline that leaves
ties as they arrived, and keeps the others in their order. An asynchronous stream hands over
all it has as it arrived. Timestamps are in a total order, in which only equal ones tie. -/
theorem streams_neither_lose_nor_repeat_packets (registry : Registry) (stream : PacketStream)
    (calls : List Call) (frame : UInt64) :
    let session := Session.run registry { stream } calls
    (session.delivered ++ session.stream.pending).Perm (stream.pending ++ session.arrived) ∧
    session.stream.kind = stream.kind ∧ session.stream.index = stream.index ∧
    (match stream.kind with
      | .synchronous => ∃ handed,
        session.stream.deliver frame =
          ({ session.stream with pending := session.stream.later frame }, handed) ∧
        ∀ other, InTimelineOrder (session.stream.due frame) other ↔ other = handed
      | .asynchronous =>
        session.stream.deliver frame =
          ({ session.stream with pending := [] }, session.stream.pending)) ∧
    Std.TransCmp Timestamp.order ∧ Std.LawfulEqCmp Timestamp.order := by
  intro session
  have hbalanced : Session.Balanced stream.pending { stream } := by
    rw [Session.Balanced, List.append_nil]
    exact .refl _
  obtain ⟨hkind, hindex⟩ := Session.run_settings registry { stream } calls
  refine ⟨hbalanced.run calls, hkind, hindex, ?_, inferInstance, inferInstance⟩
  cases h : stream.kind with
  | synchronous =>
      have hsorted := InTimelineOrder.mergeSort (session.stream.due frame)
      exact ⟨_, deliver_of_synchronous (hkind.trans h) frame,
        fun other => ⟨hsorted.unique, fun heq => heq ▸ hsorted⟩⟩
  | asynchronous => exact deliver_of_asynchronous (hkind.trans h) frame

end MotionMetadata
