/-
  Subject:   ONE SENDER, ONE LOSSY NETWORK, THE TFTP SERVER.

  The sender sends the write request and then block after block, each as often as it likes until it
  sees its acknowledgement. The network loses datagrams and delivers them twice, both ways, in order.
  The server answers every DATA datagram with the number it carries and hands it to the decoder: it
  does not compare that number with the last one. So what reaches the decoder is the file exactly if
  no block is delivered a second time.

  * `Upload`, `Upload.datagram` -- what the sender sends, message 0 the write request;
  * `Net`, `netNext` -- sender, both channels and server, and everything that can happen;
  * `NoRepeat` -- no block is delivered that was handed over before;
  * `InStep` -- the invariant: the server is at the sender's block or one behind, no older message is
    on its way;
  * **`stopAndWait`** -- the blocks handed over since the write request are blocks 1, …, k in order,
    exactly as long as no block is repeated; `redelivered` -- one that is.
-/
import SmartHome.Lib.Channel
import SmartHome.Bootloader.Tftp

namespace SmartHome.Bootloader

open SmartHome.Lib

-- what a call does does not matter here
attribute [local irreducible] ihexPackageProcess

/-! ## 1. The sender -/

/-- A file on its way: the text of the write request, and the blocks. -/
structure Upload where
  request : Bytes
  blocks : List Bytes
  requestFits : request.length ≤ 512
  blocksFit : ∀ b ∈ blocks, b.length ≤ 512

/-- Block `k`, from 1 on. -/
def Upload.block (t : Upload) (k : Nat) : Bytes := t.blocks.getD (k - 1) []

theorem Upload.block_le (t : Upload) (k : Nat) : (t.block k).length ≤ 512 := by
  unfold Upload.block
  rw [List.getD_eq_getElem?_getD]
  cases hb : t.blocks[k - 1]? with
  | none => exact Nat.zero_le _
  | some b => exact t.blocksFit b (List.mem_of_getElem? hb)

/-- Message `k` as it arrives: message 0 is the write request. -/
def Upload.datagram (t : Upload) (sender junk : Nat → UInt8) : Nat → Datagram
  | 0 => wrqDatagram sender junk t.request t.requestFits
  | k + 1 => dataDatagram sender junk (k + 1) (t.block (k + 1)) (t.block_le (k + 1))

theorem Upload.datagram_zero (t : Upload) (sender junk : Nat → UInt8) :
    (t.datagram sender junk 0).opcode = .wrq := wrqDatagram_opcode sender junk t.request t.requestFits

/-- A block arrives with its number in 16 bits. -/
theorem Upload.datagram_succ (t : Upload) (sender junk : Nat → UInt8) (k : Nat) :
    (t.datagram sender junk (k + 1)).opcode = .data ∧ (t.datagram sender junk (k + 1)).block = (k + 1) % 65536 ∧
      (t.datagram sender junk (k + 1)).package = t.block (k + 1) :=
  ⟨dataDatagram_opcode sender junk (k + 1) _ (t.block_le _), dataDatagram_block sender junk (k + 1) _ (t.block_le _),
    dataDatagram_package sender junk (k + 1) _ (t.block_le _)⟩

theorem Upload.datagram_size (t : Upload) (sender junk : Nat → UInt8) (k : Nat) :
    (t.datagram sender junk (k + 1)).dataSize = (t.block (k + 1)).length :=
  dataDatagram_dataSize sender junk (k + 1) _ (t.block_le _)

/-- The acknowledgement of message `k`: its number in 16 bits. -/
def ackOf (k : Nat) : Bytes := [0, 4, UInt8.ofNat (k / 256), UInt8.ofNat k]

theorem ofNat_eq_iff (a b : Nat) : UInt8.ofNat a = UInt8.ofNat b ↔ a % 256 = b % 256 := by
  rw [← UInt8.toNat_inj, UInt8.toNat_ofNat', UInt8.toNat_ofNat']

/-- Numbers that differ in 16 bits have different acknowledgements. -/
theorem ackOf_inj {j k : Nat} : ackOf j = ackOf k ↔ j % 65536 = k % 65536 := by
  unfold ackOf
  simp only [List.cons.injEq, and_true, true_and, ofNat_eq_iff]
  omega

/-- What the server sends for the number `k` in 16 bits. -/
theorem sendResponse_ack (k : Nat) : sendResponse (k % 65536) .ack = ackOf k ∧
    sendResponse (k % 65536) .finalAck = ackOf k := by
  have h : ackOf (k % 65536) = ackOf k := ackOf_inj.mpr (Nat.mod_mod k 65536)
  exact ⟨h, h⟩

theorem invalidImage_ne_ack (lastPacket k : Nat) : sendResponse lastPacket .invalidImage ≠ ackOf k := by
  intro h
  simp [sendResponse, errorPacket, ackOf] at h

/-! ## 2. The network -/

/-- Sender, channels and server. `next` is the message the sender waits to be acknowledged. A reply
    carries, for the record, the message it answers. `left` says that `tftp_main` has left its loop. -/
structure Net where
  next : Nat
  toServer : List Nat
  toSender : List (Nat × Bytes)
  server : Tftp
  left : Bool

/-- What can happen. -/
inductive NetEvent where
  | send
  | loseData (i : Nat)
  | doubleData (i : Nat)
  | deliver (sender junk : Nat → UInt8) (timer : Bool)
  | poll (timer : Bool)
  | loseReply (i : Nat)
  | doubleReply (i : Nat)
  | receive

/-- The server polls; its reply, if any, answers message `k`. -/
def Net.polled (net : Net) (packet : Option Datagram) (timer : Bool) (k : Nat) : Net :=
  let p := tftpPoll packet net.server
  { net with
    server := if p.ret = 0 then p.s else updateLed timer p.s
    left := decide (p.ret = 0)
    toSender := net.toSender ++ (p.sent.map fun x => (k, x)).toList }

/-- One event; `none` if it cannot happen. -/
def netNext (t : Upload) (net : Net) : NetEvent → Option Net
  | .send =>
    if net.next ≤ t.blocks.length then some { net with toServer := net.toServer ++ [net.next] } else none
  | .loseData i => some { net with toServer := net.toServer.eraseIdx i }
  | .doubleData i => some { net with toServer := double i net.toServer }
  | .deliver sender junk timer =>
    match net.toServer with
    | [] => none
    | k :: rest =>
      if net.left then some { net with toServer := rest }
      else some (Net.polled { net with toServer := rest } (some (t.datagram sender junk k)) timer k)
  | .poll timer => if net.left then none else some (net.polled none timer 0)
  | .loseReply i => some { net with toSender := net.toSender.eraseIdx i }
  | .doubleReply i => some { net with toSender := double i net.toSender }
  | .receive =>
    match net.toSender with
    | [] => none
    | r :: rest =>
      some { net with toSender := rest, next := if r.2 = ackOf net.next then net.next + 1 else net.next }

theorem netNext_send {t : Upload} {net : Net} (h : net.next ≤ t.blocks.length) :
    netNext t net .send = some { net with toServer := net.toServer ++ [net.next] } := if_pos h

theorem netNext_receive {t : Upload} {net : Net} {r : Nat × Bytes} {rest : List (Nat × Bytes)}
    (h : net.toSender = r :: rest) (hack : r.2 = ackOf net.next) :
    netNext t net .receive = some { net with toSender := rest, next := net.next + 1 } := by
  unfold netNext
  simp only [h, if_pos hack]

/-- Nothing is on its way. -/
def netStart (s : Tftp) : Net := ⟨0, [], [], tftpStart s, false⟩

/-! ## 3. In order, and no repeats -/

/-- Blocks 1, …, `k` with their numbers. -/
def Upload.firstBlocks (t : Upload) (k : Nat) : List (Nat × Bytes) :=
  (List.range k).map fun i => ((i + 1) % 65536, t.block (i + 1))

/-- **In order, each once**: what was handed over are the first blocks. -/
def InOrder (t : Upload) (handed : List (Nat × Bytes)) : Prop :=
  ∃ k, k ≤ t.blocks.length ∧ handed = t.firstBlocks k

/-- **No repeat**: a block that is delivered was not handed over since the write request. -/
def NoRepeat (net : Net) (e : NetEvent) : Prop :=
  ∀ sender junk timer, e = .deliver sender junk timer → net.left = false →
    ∀ k rest, net.toServer = (k + 1) :: rest → net.server.handed.length ≤ k

theorem Upload.firstBlocks_length (t : Upload) (k : Nat) : (t.firstBlocks k).length = k := by
  simp [Upload.firstBlocks]

theorem Upload.firstBlocks_succ (t : Upload) (k : Nat) :
    t.firstBlocks (k + 1) = t.firstBlocks k ++ [((k + 1) % 65536, t.block (k + 1))] := by
  unfold Upload.firstBlocks
  have hr : List.range (k + 1) = List.range k ++ [k] := List.range_succ
  rw [hr, List.map_append]
  rfl

/-- The bytes of the first blocks. -/
theorem Upload.firstBlocks_bytes (t : Upload) : ∀ k, k ≤ t.blocks.length →
    (t.firstBlocks k).flatMap Prod.snd = (t.blocks.take k).flatten
  | 0, _ => rfl
  | k + 1, h => by
    have hk : k < t.blocks.length := h
    have hblock : t.block (k + 1) = t.blocks[k] := by
      unfold Upload.block
      rw [Nat.add_sub_cancel, List.getD_eq_getElem _ _ hk]
    rw [t.firstBlocks_succ, List.flatMap_append, t.firstBlocks_bytes k (Nat.le_of_lt hk),
      List.take_succ_eq_append_getElem hk, List.flatten_append, ← hblock]
    simp

/-! ## 4. The invariant -/

/-- **The server is at the sender's block or one behind.** No message on its way is older than the
    last one handed over, no reply older than the one before the sender's. -/
structure InStep (t : Upload) (net : Net) : Prop where
  handed : net.server.handed = t.firstBlocks net.server.handed.length
  count : net.server.handed.length ≤ t.blocks.length
  behind : net.server.handed.length ≤ net.next
  ahead : net.next ≤ net.server.handed.length + 1
  order : net.toServer.Pairwise (· ≤ ·)
  range : ∀ k ∈ net.toServer, net.server.handed.length ≤ k ∧ k ≤ net.next ∧ k ≤ t.blocks.length
  replyOrder : net.toSender.Pairwise fun r r' => r.1 ≤ r'.1
  replyRange : ∀ r ∈ net.toSender, net.next ≤ r.1 + 1 ∧ r.1 ≤ net.server.handed.length ∧
    (r.2 = ackOf r.1 ∨ ∀ k, r.2 ≠ ackOf k)

theorem inStep_start (t : Upload) (s : Tftp) : InStep t (netStart s) where
  handed := rfl
  count := Nat.zero_le _
  behind := Nat.le_refl 0
  ahead := Nat.zero_le _
  order := List.Pairwise.nil
  range _ h := absurd h List.not_mem_nil
  replyOrder := List.Pairwise.nil
  replyRange _ h := absurd h List.not_mem_nil

section Events

variable {t : Upload} {net : Net}

/-- Fewer messages on their way. -/
theorem InStep.toServer (h : InStep t net) {ms : List Nat} (hord : ms.Pairwise (· ≤ ·))
    (hmem : ∀ k ∈ ms, k ∈ net.toServer) : InStep t { net with toServer := ms } :=
  ⟨h.handed, h.count, h.behind, h.ahead, hord, fun k hk => h.range k (hmem k hk), h.replyOrder, h.replyRange⟩

/-- Fewer replies on their way. -/
theorem InStep.toSender (h : InStep t net) {rs : List (Nat × Bytes)}
    (hord : rs.Pairwise fun r r' => r.1 ≤ r'.1) (hmem : ∀ r ∈ rs, r ∈ net.toSender) :
    InStep t { net with toSender := rs } :=
  ⟨h.handed, h.count, h.behind, h.ahead, h.order, h.range, hord, fun r hr => h.replyRange r (hmem r hr)⟩

/-- The sender sends. -/
theorem InStep.sent (h : InStep t net) (hn : net.next ≤ t.blocks.length) :
    InStep t { net with toServer := net.toServer ++ [net.next] } where
  handed := h.handed
  count := h.count
  behind := h.behind
  ahead := h.ahead
  order := pairwise_snoc h.order fun k hk => (h.range k hk).2.1
  range k hk := by
    rcases List.mem_append.mp hk with hk | hk
    · exact h.range k hk
    · rw [List.mem_singleton.mp hk]
      exact ⟨h.behind, Nat.le_refl _, hn⟩
  replyOrder := h.replyOrder
  replyRange := h.replyRange

/-- **The sender sees a reply.** An acknowledgement it waits for is of its own message: the only
    other one on its way is of the message before, and differs in 16 bits. -/
theorem InStep.received (h : InStep t net) {r : Nat × Bytes} {rest : List (Nat × Bytes)}
    (hr : net.toSender = r :: rest) :
    InStep t { net with
      toSender := rest
      next := if r.2 = ackOf net.next then net.next + 1 else net.next } := by
  have hord := h.replyOrder
  rw [hr] at hord
  obtain ⟨hfirst, hrest⟩ := List.pairwise_cons.mp hord
  have hin : ∀ r' ∈ rest, r' ∈ net.toSender := by
    intro r' hr'
    rw [hr]
    exact List.mem_cons_of_mem r hr'
  by_cases hack : r.2 = ackOf net.next
  · rw [if_pos hack]
    have hmem : r ∈ net.toSender := by
      rw [hr]
      exact List.mem_cons_self
    obtain ⟨hlo, hhi, hkind⟩ := h.replyRange r hmem
    have hbehind := h.behind
    have hsame : r.1 = net.next := by
      rcases hkind with hkind | hkind
      · have hmod := ackOf_inj.mp (hkind.symm.trans hack)
        omega
      · exact absurd hack (hkind net.next)
    refine ⟨h.handed, h.count, Nat.le_succ_of_le hbehind, ?_, h.order, fun k hk => ?_, hrest, fun r' hr' => ?_⟩
    · show net.next + 1 ≤ net.server.handed.length + 1
      omega
    · obtain ⟨h1, h2, h3⟩ := h.range k hk
      exact ⟨h1, Nat.le_succ_of_le h2, h3⟩
    · obtain ⟨_, h2, h3⟩ := h.replyRange r' (hin r' hr')
      have hle := hfirst r' hr'
      refine ⟨?_, h2, h3⟩
      show net.next + 1 ≤ r'.1 + 1
      omega
  · rw [if_neg hack]
    exact h.toSender hrest hin

end Events

/-! ## 5. The server's part -/

-- from here on a poll is known by its lemmas
attribute [local irreducible] tftpPoll Upload.datagram

/-- The server after a poll, with the timer's tick. -/
theorem polled_handed (net : Net) (packet : Option Datagram) (timer : Bool) (k : Nat) :
    (net.polled packet timer k).server.handed = (tftpPoll packet net.server).s.handed := by
  unfold Net.polled
  simp only
  split
  · rfl
  · unfold updateLed
    split <;> rfl

/-- A poll without a datagram hands nothing over. -/
theorem tftpPoll_none_handed (s : Tftp) : (tftpPoll none s).s.handed = s.handed ∧ (tftpPoll none s).sent = none := by
  cases ht : timedOut s with
  | false =>
    rw [tftpPoll_idle ht]
    exact ⟨rfl, rfl⟩
  | true =>
    cases hd : s.downloadStarted with
    | true =>
      rw [tftpPoll_erase ht hd]
      exact ⟨rfl, rfl⟩
    | false =>
      rw [tftpPoll_leave ht hd]
      exact ⟨rfl, rfl⟩

/-- The write request. -/
theorem tftpPoll_request (t : Upload) (sender junk : Nat → UInt8) (s : Tftp) :
    (tftpPoll (some (t.datagram sender junk 0)) s).s.handed = [] ∧
      (tftpPoll (some (t.datagram sender junk 0)) s).sent = some (ackOf 0) := by
  obtain ⟨hack, hlast, hhanded⟩ := processPacket_wrq (t.datagram_zero sender junk) s
  rw [tftpPoll_packet]
  simp only [touched_handed, hack, hlast, hhanded]
  exact ⟨trivial, rfl⟩

/-- **A block**: handed over whatever came before, and answered with its number or an error. -/
theorem tftpPoll_block (t : Upload) (sender junk : Nat → UInt8) (k : Nat) (s : Tftp) :
    (tftpPoll (some (t.datagram sender junk (k + 1))) s).s.handed = s.handed ++ [((k + 1) % 65536, t.block (k + 1))] ∧
      ∃ p, (tftpPoll (some (t.datagram sender junk (k + 1))) s).sent = some p ∧
        (p = ackOf (k + 1) ∨ ∀ j, p ≠ ackOf j) := by
  obtain ⟨hop, hblock, hpk⟩ := t.datagram_succ sender junk k
  refine ⟨?_, ?_⟩
  · rw [tftpPoll_data hop, touched_handed, handOver_handed, hblock, hpk]
  · rw [tftpPoll_packet, processPacket_data hop]
    refine ⟨_, rfl, ?_⟩
    simp only [handOver_lastPacket, hblock]
    split
    · exact Or.inr fun j => invalidImage_ne_ack _ j
    · split
      · exact Or.inl (sendResponse_ack (k + 1)).2
      · exact Or.inl (sendResponse_ack (k + 1)).1

section Server

variable {t : Upload} {net : Net}

/-- A poll without a datagram. -/
theorem InStep.polled_none (h : InStep t net) (timer : Bool) : InStep t (net.polled none timer 0) := by
  obtain ⟨hhanded, hsent⟩ := tftpPoll_none_handed net.server
  have hserver : (net.polled none timer 0).server.handed = net.server.handed :=
    (polled_handed net none timer 0).trans hhanded
  have hreplies : (net.polled none timer 0).toSender = net.toSender := by
    show net.toSender ++ ((tftpPoll none net.server).sent.map fun x => (0, x)).toList = net.toSender
    rw [hsent]
    exact List.append_nil _
  refine ⟨?_, ?_, ?_, ?_, h.order, ?_, ?_, ?_⟩
  · rw [hserver]
    exact h.handed
  · rw [hserver]
    exact h.count
  · rw [hserver]
    exact h.behind
  · rw [hserver]
    exact h.ahead
  · rw [hserver]
    exact h.range
  · rw [hreplies]
    exact h.replyOrder
  · rw [hreplies, hserver]
    exact h.replyRange

/-- **The server answers message `k`**, the oldest on its way: the request or the block after those
    handed over. Either way it then stands at `k`. -/
theorem InStep.answered (h : InStep t net) {k : Nat} {rest : List Nat} (hk : net.toServer = k :: rest)
    {net' : Net} {p : Bytes} (hnext : net'.next = net.next) (hrest : net'.toServer = rest)
    (hreplies : net'.toSender = net.toSender ++ [(k, p)]) (hp : p = ackOf k ∨ ∀ j, p ≠ ackOf j)
    (hhanded : net'.server.handed = t.firstBlocks k) (hle : k ≤ net.server.handed.length + 1) : InStep t net' := by
  have hmem : k ∈ net.toServer := by
    rw [hk]
    exact List.mem_cons_self
  obtain ⟨hlo, hhi, hcount⟩ := h.range k hmem
  have hahead := h.ahead
  have hord := h.order
  rw [hk] at hord
  obtain ⟨hfirst, hord'⟩ := List.pairwise_cons.mp hord
  have hlen : net'.server.handed.length = k := by
    rw [hhanded, t.firstBlocks_length]
  refine ⟨?_, ?_, ?_, ?_, ?_, fun j hj => ?_, ?_, fun r hr => ?_⟩
  · rw [hlen]
    exact hhanded
  · rw [hlen]
    exact hcount
  · rw [hlen, hnext]
    exact hhi
  · rw [hlen, hnext]
    omega
  · rw [hrest]
    exact hord'
  · rw [hrest] at hj
    obtain ⟨_, h2, h3⟩ := h.range j (by rw [hk]; exact List.mem_cons_of_mem k hj)
    rw [hlen, hnext]
    exact ⟨hfirst j hj, h2, h3⟩
  · rw [hreplies]
    exact pairwise_snoc h.replyOrder fun r hr => Nat.le_trans (h.replyRange r hr).2.1 hlo
  · rw [hreplies] at hr
    rw [hlen, hnext]
    rcases List.mem_append.mp hr with hr | hr
    · obtain ⟨h1, h2, h3⟩ := h.replyRange r hr
      exact ⟨h1, Nat.le_trans h2 hlo, h3⟩
    · rw [List.mem_singleton.mp hr]
      exact ⟨by show net.next ≤ k + 1; omega, Nat.le_refl k, hp⟩

/-- The write request is delivered: nothing was handed over yet. -/
theorem InStep.request (h : InStep t net) {rest : List Nat} (hk : net.toServer = 0 :: rest)
    (sender junk : Nat → UInt8) (timer : Bool) :
    InStep t (Net.polled { net with toServer := rest } (some (t.datagram sender junk 0)) timer 0) := by
  obtain ⟨hhanded, hsent⟩ := tftpPoll_request t sender junk net.server
  refine h.answered hk rfl rfl ?_ (Or.inl rfl) ?_ (Nat.zero_le _)
  · show net.toSender ++ ((tftpPoll (some (t.datagram sender junk 0)) net.server).sent.map fun x => (0, x)).toList = _
    rw [hsent]
    rfl
  · rw [polled_handed]
    exact hhanded

/-- A block that was not handed over is delivered. -/
theorem InStep.block (h : InStep t net) {k : Nat} {rest : List Nat} (hk : net.toServer = (k + 1) :: rest)
    (hnew : net.server.handed.length ≤ k) (sender junk : Nat → UInt8) (timer : Bool) :
    InStep t (Net.polled { net with toServer := rest } (some (t.datagram sender junk (k + 1))) timer (k + 1)) := by
  have hmem : k + 1 ∈ net.toServer := by
    rw [hk]
    exact List.mem_cons_self
  obtain ⟨_, hhi, _⟩ := h.range (k + 1) hmem
  have hahead := h.ahead
  have hlen : net.server.handed.length = k := by omega
  obtain ⟨hhanded, p, hsent, hp⟩ := tftpPoll_block t sender junk k net.server
  refine h.answered hk rfl rfl ?_ hp ?_ (by omega)
  · show net.toSender ++
      ((tftpPoll (some (t.datagram sender junk (k + 1))) net.server).sent.map fun x => (k + 1, x)).toList = _
    rw [hsent]
    rfl
  · rw [polled_handed]
    show (tftpPoll (some (t.datagram sender junk (k + 1))) net.server).s.handed = _
    rw [hhanded, t.firstBlocks_succ, ← hlen, ← h.handed]

/-- **One event.** -/
theorem inStep_step (h : InStep t net) {e : NetEvent} (hok : NoRepeat net e) {net' : Net}
    (hs : netNext t net e = some net') : InStep t net' := by
  unfold netNext at hs
  cases e with
  | send =>
    simp only at hs
    split at hs
    · rename_i hn
      cases hs
      exact h.sent hn
    · cases hs
  | loseData i =>
    cases hs
    exact h.toServer (pairwise_eraseIdx h.order i) fun k hk => List.mem_of_mem_eraseIdx hk
  | doubleData i =>
    cases hs
    exact h.toServer (pairwise_double Nat.le_refl i _ h.order) fun k hk => mem_double i _ hk
  | deliver sender junk timer =>
    simp only at hs
    split at hs
    · cases hs
    · rename_i k rest hk
      split at hs
      · cases hs
        refine h.toServer ?_ fun j hj => ?_
        · have hord := h.order
          rw [hk] at hord
          exact (List.pairwise_cons.mp hord).2
        · rw [hk]
          exact List.mem_cons_of_mem k hj
      · rename_i hleft
        cases hs
        cases k with
        | zero => exact h.request hk sender junk timer
        | succ k =>
          have hnew := hok sender junk timer rfl (Bool.eq_false_iff.mpr hleft) k rest hk
          exact h.block hk hnew sender junk timer
  | poll timer =>
    simp only at hs
    split at hs
    · cases hs
    · cases hs
      exact h.polled_none timer
  | loseReply i =>
    cases hs
    exact h.toSender (pairwise_eraseIdx h.replyOrder i) fun r hr => List.mem_of_mem_eraseIdx hr
  | doubleReply i =>
    cases hs
    exact h.toSender (pairwise_double (fun r => Nat.le_refl r.1) i _ h.replyOrder) fun r hr => mem_double i _ hr
  | receive =>
    simp only at hs
    split at hs
    · cases hs
    · rename_i r rest hr
      cases hs
      exact h.received hr

/-- A block that is repeated is handed over again, and then they are not in order. -/
theorem InStep.repeated (h : InStep t net) {k : Nat} {rest : List Nat} (hk : net.toServer = (k + 1) :: rest)
    (hold : k < net.server.handed.length) (sender junk : Nat → UInt8) (timer : Bool) :
    ¬ InOrder t (Net.polled { net with toServer := rest }
      (some (t.datagram sender junk (k + 1))) timer (k + 1)).server.handed := by
  have hmem : k + 1 ∈ net.toServer := by
    rw [hk]
    exact List.mem_cons_self
  obtain ⟨hlo, _⟩ := h.range (k + 1) hmem
  have hlen : net.server.handed.length = k + 1 := by omega
  rintro ⟨n, _, hn⟩
  rw [polled_handed] at hn
  have hn' : (tftpPoll (some (t.datagram sender junk (k + 1))) net.server).s.handed = t.firstBlocks n := hn
  rw [(tftpPoll_block t sender junk k net.server).1] at hn'
  have hcount := congrArg List.length hn'
  rw [List.length_append, t.firstBlocks_length, hlen] at hcount
  have hn2 : n = k + 1 + 1 := hcount.symm
  rw [hn2, t.firstBlocks_succ] at hn'
  -- the last number is that of the block before
  have hlast := List.singleton_inj.mp (List.append_inj' hn' rfl).2
  have hnum := congrArg Prod.fst hlast
  simp only at hnum
  omega

end Server

/-- **Stop and wait.** In every run without a repeat the blocks handed to the decoder since the write
    request are the first blocks of the file, in order, each once; so their bytes are the beginning of
    the file; and an event keeps them so exactly if it is not a repeat. -/
theorem stopAndWait (t : Upload) (s₀ : Tftp) (net : Net) (h : Reaches (netNext t) NoRepeat (netStart s₀) net) :
    InOrder t net.server.handed ∧
    (∃ k, k ≤ t.blocks.length ∧ net.server.handed.flatMap Prod.snd = (t.blocks.take k).flatten) ∧
    ∀ e net', netNext t net e = some net' → (InOrder t net'.server.handed ↔ NoRepeat net e) := by
  have hinv : InStep t net :=
    Reaches.invariant (InStep t) (inStep_start t s₀) (fun _ _ _ hI hok hs => inStep_step hI hok hs) h
  refine ⟨⟨_, hinv.count, hinv.handed⟩, ⟨net.server.handed.length, hinv.count, ?_⟩, fun e net' hs => ⟨?_, ?_⟩⟩
  · rw [← t.firstBlocks_bytes _ hinv.count, ← hinv.handed]
  · rintro hin sender junk timer rfl hleft k rest hk
    refine Nat.not_lt.mp fun hold => ?_
    unfold netNext at hs
    rw [hk] at hs
    simp only [hleft, Bool.false_eq_true, if_false] at hs
    cases hs
    exact hinv.repeated hk hold sender junk timer hin
  · intro hok
    have hinv' := inStep_step hinv hok hs
    exact ⟨_, hinv'.count, hinv'.handed⟩

/-! ## 6. A block that is delivered twice -/

/-- No bytes. -/
def zeros (_ : Nat) : UInt8 := 0

/-- A write request leaves the server running. -/
theorem request_ret (t : Upload) (s : Tftp) : (tftpPoll (some (t.datagram zeros zeros 0)) s).ret = 1 := by
  obtain ⟨hack, _⟩ := processPacket_wrq (t.datagram_zero zeros zeros) s
  rw [tftpPoll_packet]
  exact if_neg (by rw [hack]; exact Response.noConfusion)

/-- So does a full block. -/
theorem fullBlock_ret (t : Upload) {k : Nat} (h : (t.block (k + 1)).length = 512) (s : Tftp) :
    (tftpPoll (some (t.datagram zeros zeros (k + 1))) s).ret = 1 := by
  obtain ⟨hop, _⟩ := t.datagram_succ zeros zeros k
  have hsize : (t.datagram zeros zeros (k + 1)).dataSize = 512 := (t.datagram_size zeros zeros k).trans h
  rw [tftpPoll_packet]
  refine if_neg fun hfinal => ?_
  rw [processPacket_data hop, hsize] at hfinal
  simp only [Nat.lt_irrefl, if_false] at hfinal
  split at hfinal <;> exact Response.noConfusion hfinal

/-- The request is through, and the first block is on its way. -/
theorem firstBlock_sent (t : Upload) (hb : 1 ≤ t.blocks.length) (s₀ : Tftp) : ∃ net : Net,
    Reaches (netNext t) NoRepeat (netStart s₀) net ∧ net.next = 1 ∧ net.left = false ∧ net.toServer = [1] ∧
      net.server.handed = [] := by
  obtain ⟨hhanded, hsent⟩ := tftpPoll_request t zeros zeros (tftpStart s₀)
  have hret := request_ret t (tftpStart s₀)
  let request : Net := { netStart s₀ with toServer := [0] }
  have hrequest : netNext t (netStart s₀) .send = some request := netNext_send (Nat.zero_le _)
  let answered : Net := Net.polled { netStart s₀ with toServer := [] } (some (t.datagram zeros zeros 0)) false 0
  have hanswered : netNext t request (.deliver zeros zeros false) = some answered := rfl
  have hreplies : answered.toSender = [(0, ackOf 0)] := by
    show [] ++ ((tftpPoll (some (t.datagram zeros zeros 0)) (tftpStart s₀)).sent.map fun x => (0, x)).toList = _
    rw [hsent]
    rfl
  have hleft : answered.left = false := by
    show decide ((tftpPoll (some (t.datagram zeros zeros 0)) (tftpStart s₀)).ret = 0) = false
    rw [hret]
    rfl
  let waiting : Net := { answered with toSender := [], next := 1 }
  have hwaiting : netNext t answered .receive = some waiting := netNext_receive hreplies rfl
  let sent : Net := { waiting with toServer := [1] }
  have hsent' : netNext t waiting .send = some sent := netNext_send hb
  have hno : ∀ net : Net, net.toServer = [] ∨ net.toServer = [0] → ∀ e, NoRepeat net e := by
    intro net hnet e _ _ _ _ _ k rest hk
    rcases hnet with hnet | hnet
    · rw [hnet] at hk
      exact absurd hk (List.cons_ne_nil _ _).symm
    · rw [hnet] at hk
      exact absurd (List.cons.inj hk).1 (Nat.succ_ne_zero k).symm
  refine ⟨sent, ?_, rfl, hleft, rfl, ?_⟩
  · refine .step _ (.step _ (.step _ (.step _ .start ?_ hrequest) ?_ hanswered) ?_ hwaiting) ?_ hsent'
    · exact hno _ (Or.inl rfl) _
    · exact hno _ (Or.inr rfl) _
    · exact hno _ (Or.inl rfl) _
    · exact hno _ (Or.inl rfl) _
  · show answered.server.handed = []
    rw [polled_handed]
    exact hhanded

/-- A file whose first block is full. -/
def fullFile : Upload where
  request := []
  blocks := [List.replicate 512 0x3A, []]
  requestFits := Nat.zero_le _
  blocksFit b hb := by
    rcases List.mem_cons.mp hb with rfl | hb
    · exact Nat.le_of_eq List.length_replicate
    · rw [List.mem_singleton.mp hb]
      exact Nat.zero_le _

theorem fullFile_first : (fullFile.block 1).length = 512 := List.length_replicate

/-- The server takes the oldest block on its way, and goes on if it is a full one. -/
theorem netNext_fullBlock (net : Net) {rest : List Nat} (hleft : net.left = false) (hto : net.toServer = 1 :: rest) :
    ∃ net', netNext fullFile net (.deliver zeros zeros false) = some net' ∧ net'.left = false ∧
      net'.toServer = rest ∧ net'.server.handed = net.server.handed ++ [(1, fullFile.block 1)] := by
  refine ⟨Net.polled { net with toServer := rest } (some (fullFile.datagram zeros zeros 1)) false 1, ?_, ?_, rfl, ?_⟩
  · unfold netNext
    simp only [hto, hleft, Bool.false_eq_true, if_false]
  · show decide ((tftpPoll (some (fullFile.datagram zeros zeros 1)) net.server).ret = 0) = false
    rw [fullBlock_ret fullFile fullFile_first]
    rfl
  · rw [polled_handed]
    exact (tftpPoll_block fullFile zeros zeros 0 net.server).1

/-- Its first block is sent twice, the first copy is lost, the second is handed over: in order, once. -/
theorem stopAndWait_resent : ∃ sent lost net : Net,
    Reaches (netNext fullFile) NoRepeat (netStart (resetTftp erasedFlash)) sent ∧ sent.toServer = [1, 1] ∧
    netNext fullFile sent (.loseData 0) = some lost ∧ netNext fullFile lost (.deliver zeros zeros false) = some net ∧
    net.server.handed = [(1, fullFile.block 1)] ∧ InOrder fullFile net.server.handed := by
  obtain ⟨net, hnet, hnext, hleft, hto, hhanded⟩ :=
    firstBlock_sent fullFile (Nat.le_succ 1) (resetTftp erasedFlash)
  let sent : Net := { net with toServer := [1, 1] }
  have hsend : netNext fullFile net .send = some sent := by
    have hroom : net.next ≤ fullFile.blocks.length := hnext ▸ Nat.le_succ 1
    have hqueue : net.toServer ++ [net.next] = [1, 1] := by rw [hto, hnext]; rfl
    rw [netNext_send hroom, hqueue]
  let lost : Net := { net with toServer := [1] }
  have hlose : netNext fullFile sent (.loseData 0) = some lost := rfl
  obtain ⟨once, honce, _, _, h1⟩ := netNext_fullBlock lost hleft rfl
  have h1' : once.server.handed = [(1, fullFile.block 1)] := by
    rw [h1]
    show net.server.handed ++ _ = _
    rw [hhanded]
    rfl
  have hsent : Reaches (netNext fullFile) NoRepeat (netStart (resetTftp erasedFlash)) sent :=
    .step _ hnet (fun _ _ _ he => NetEvent.noConfusion he) hsend
  have hrun : Reaches (netNext fullFile) NoRepeat (netStart (resetTftp erasedFlash)) once := by
    refine .step _ (.step _ hsent (fun _ _ _ he => NetEvent.noConfusion he) hlose) ?_ honce
    intro _ _ _ _ _ k _ _
    show net.server.handed.length ≤ k
    rw [hhanded]
    exact Nat.zero_le k
  exact ⟨sent, lost, once, hsent, rfl, hlose, honce, h1',
    (stopAndWait fullFile (resetTftp erasedFlash) once hrun).1⟩

/-- **A block that is delivered twice is decoded twice.** -/
theorem redelivered : ∃ net : Net,
    Reaches (netNext fullFile) (fun _ _ => True) (netStart (resetTftp erasedFlash)) net ∧
    net.server.handed = [(1, fullFile.block 1), (1, fullFile.block 1)] ∧ ¬ InOrder fullFile net.server.handed ∧
    ∀ k, net.server.handed.flatMap Prod.snd ≠ (fullFile.blocks.take k).flatten := by
  obtain ⟨net, hnet, _, hleft, hto, hhanded⟩ := firstBlock_sent fullFile (Nat.le_succ 1) (resetTftp erasedFlash)
  have hstart := hnet.mono fun _ _ _ => trivial
  let twice : Net := { net with toServer := [1, 1] }
  have htwice : netNext fullFile net (.doubleData 0) = some twice := by
    show some { net with toServer := double 0 net.toServer } = _
    rw [hto]
    rfl
  obtain ⟨once, honce, hleft', hto', h1⟩ := netNext_fullBlock twice hleft rfl
  obtain ⟨again, hagain, _, _, h2⟩ := netNext_fullBlock once hleft' hto'
  have h2 : again.server.handed = [(1, fullFile.block 1), (1, fullFile.block 1)] := by
    rw [h2, h1]
    show net.server.handed ++ _ ++ _ = _
    rw [hhanded]
    rfl
  have hbytes : ∀ k, again.server.handed.flatMap Prod.snd ≠ (fullFile.blocks.take k).flatten := by
    intro k he
    have hlen := congrArg List.length he
    rw [h2] at hlen
    have hshort : (fullFile.blocks.take k).flatten.length + (fullFile.blocks.drop k).flatten.length = 512 := by
      rw [← List.length_append, ← List.flatten_append, List.take_append_drop]
      show (fullFile.block 1 ++ ([] ++ [])).length = 512
      rw [List.append_nil, List.append_nil]
      exact fullFile_first
    have hlong : ([(1, fullFile.block 1), (1, fullFile.block 1)].flatMap Prod.snd).length = 1024 := by
      simp [fullFile_first]
    omega
  refine ⟨again, .step _ (.step _ (.step _ hstart trivial htwice) trivial honce) trivial hagain, h2, ?_, hbytes⟩
  rintro ⟨k, hk, he⟩
  exact hbytes k (by rw [he, fullFile.firstBlocks_bytes k hk])

end SmartHome.Bootloader
