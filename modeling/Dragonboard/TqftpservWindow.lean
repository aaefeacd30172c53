/-
The send loop of `handle_reader`, whatever is acknowledged and whatever becomes of the packets.

The loop goes from the block that was acknowledged up to `last + wsize`. The block number has 16 bits and the
bound is a `size_t`, so a bound from 65536 on is never reached, and a negative `wsize` makes it huge
or puts it below `last`. What ends the loop then is the end of the file, if that has a block number
(`window_finite_iff`).

Whatever the loop does, the number of a packet and its place in the file are computed from one block
number, so each packet carries the bytes that its number says (`data_in_step`). The exception is the
number 0, which stands for block 65536.
-/
import Dragonboard.TqftpservRead

set_option autoImplicit false

namespace Dragonboard.Tqftpserv

open Dragonboard.Ns Dragonboard.Qrtr Dragonboard.Translate

/-- A file that does not change: what is read from it, if the read does not fail. -/
def Unchanging (sys : Sys) (fd : ℕ) (content : List UInt8) : Prop :=
  ∀ t count offset data, sys.pread t fd count offset = some data →
    data = (content.drop offset.toNat).take count.toNat

/-! ## One block

The offset of a block is computed from its number, which is one more than those that were sent
before it. On the wire the number has 16 bits. -/

section Block

variable {sys : Sys} {client : TftpClient} {content : List UInt8}
  (hfile : Unchanging sys client.fd content)
  (hblk : 0 < client.blksize.toNat) (hblk' : client.blksize.toNat < 2 ^ 31)

theorem send_did (sys : Sys) (s : State) (sock : ℕ) (data : List UInt8) :
    ∃ n sent t, send sys s sock data = (n, s.did sent t) ∧ (sent = [] ∨ sent = [.send sock data]) := by
  unfold send
  simp only
  split
  · refine ⟨sys.send s.time sock data, [], 1, ?_, .inl rfl⟩
    simp [State.did, State.tick]
  · exact ⟨_, [.send sock data], 1, rfl, .inr rfl⟩

/-- The offset of a block does not wrap around. -/
theorem block_offset (block : UInt16) (hblk' : client.blksize.toNat < 2 ^ 31) :
    (block.toUInt64 * client.blksize).toNat = block.toNat * client.blksize.toNat := by
  have hblock : block.toNat ≤ 65535 := Nat.le_of_lt_succ block.toNat_lt
  have hle : block.toNat * client.blksize.toNat ≤ 65535 * 2 ^ 31 :=
    Nat.mul_le_mul hblock (Nat.le_of_lt hblk')
  rw [UInt64.toNat_mul, UInt16.toNat_toUInt64, Nat.mod_eq_of_lt (by omega)]

theorem block_number (block : UInt16) : (block.toUInt32 + 1).toUInt16 = block + 1 := by
  apply UInt16.toNat_inj.mp
  rw [UInt32.toNat_toUInt16, UInt32.toNat_add, UInt16.toNat_toUInt32, UInt16.toNat_add]
  have h1 : UInt32.toNat 1 = 1 := rfl
  have h1' : UInt16.toNat 1 = 1 := rfl
  have hlt := block.toNat_lt
  omega

include hfile hblk hblk' in
/-- What `tftp_send_data` sends of a block: nothing, or the packet of the block. Behind the end of the file there
is nothing to send, and it says so. -/
theorem send_data_spec (s : State) (block : UInt16) {n : ℤ} {s' : State}
    (h : tftp_send_data sys s client (block.toUInt32 + 1) (block.toUInt64 * client.blksize)
      = some (n, s')) :
    ∃ sent t, s' = s.did (sends client.sock sent) t ∧
      (sent = [] ∨ block.toNat * client.blksize.toNat < content.length ∧
        sent = [dataPacket (block + 1) (chunk content client.blksize.toNat block.toNat)]) ∧
      (content.length ≤ block.toNat * client.blksize.toNat → n ≤ 0) := by
  unfold tftp_send_data at h
  simp only at h
  split at h
  · cases h
  split at h
  · -- the read fails
    cases h
    exact ⟨[], 2, by simp [State.did, State.tick, sends], .inl rfl, fun _ => by omega⟩
  · rename_i data hread
    -- what was read is the file, at an offset that did not wrap
    have hdata := hfile _ _ _ _ hread
    have hchunk : data.take client.blksize.toNat
        = chunk content client.blksize.toNat block.toNat := by
      rw [hdata, block_offset block hblk', List.take_take, Nat.min_self, chunk]
    have hempty := chunk_eq_nil_iff content hblk block.toNat
    rw [hchunk, block_number] at h
    split at h
    · cases h
      exact ⟨[], 2, by simp [State.did, State.tick, sends], .inl rfl, fun _ => Int.le_refl 0⟩
    -- there are bytes, so `send` is called; whether it takes them is not known
    · rename_i hsome
      have hinside : ¬ content.length ≤ block.toNat * client.blksize.toNat := fun hle =>
        hsome (hempty.mpr hle)
      obtain ⟨n', sent, t, hsend, hsent⟩ := send_did sys s.tick.tick client.sock
        (dataPacket (block + 1) (chunk content client.blksize.toNat block.toNat))
      rw [dataPacket] at hsend
      rw [hsend] at h
      cases h
      rcases hsent with rfl | rfl
      · refine ⟨[], 2 + t, ?_, .inl rfl, fun hle => absurd hle hinside⟩
        simp [State.did, State.tick, sends, Nat.add_assoc]
      · refine ⟨_, 2 + t, ?_, .inr ⟨Nat.not_le.mp hinside, rfl⟩, fun hle => absurd hle hinside⟩
        simp [State.did, State.tick, sends, Nat.add_assoc]

theorem send_data_isSome (hmalloc : ∀ t size, sys.malloc t size = true)
    (hblk' : client.blksize.toNat < 2 ^ 31) (s : State) (block : UInt32) (offset : UInt64) :
    ∃ n s', tftp_send_data sys s client block offset = some (n, s') := by
  -- the size of the buffer does not wrap around either
  have hsize : ¬ 4 + client.blksize < 4 := by
    rw [UInt64.lt_iff_toNat_lt, UInt64.toNat_add]
    have h4 : UInt64.toNat 4 = 4 := rfl
    omega
  unfold tftp_send_data
  simp only [hmalloc, hsize, Bool.true_eq_false, or_self, if_false]
  split
  · exact ⟨_, _, rfl⟩
  · split
    · exact ⟨_, _, rfl⟩
    · exact ⟨_, _, rfl⟩

end Block

/-! ## The loop

The send loop of `handle_reader` ends when the window is full, when the file ends or when a send
fails. It is a recursion without a bound, so it is compared with one that is cut off after some
rounds. -/

section Loop

variable {sys : Sys} {client : TftpClient} {content : List UInt8}

/-- The send loop of `handle_reader`, cut off after some rounds if it has not ended by then. -/
def handle_reader.rounds (sys : Sys) (client : TftpClient) (last : UInt16) :
    ℕ → UInt16 → State → Option State
  | 0, _, s => some s
  | n + 1, block, s =>
    if block.toUInt64 < last.toUInt64 + client.wsize then do
      let (ret, s) ← tftp_send_data sys s client (block.toUInt32 + 1) (block.toUInt64 * client.blksize)
      if ret ≤ 0 then return s
      else handle_reader.rounds sys client last n (block + 1) s
    else some s

/-- How a loop that ends comes out of its first round. -/
theorem loop_cases {last : UInt16} {fuel : ℕ} {block : UInt16} {s s' : State}
    (h : handle_reader.loop sys client last (fuel + 1) block s = some s') :
    (¬ block.toUInt64 < last.toUInt64 + client.wsize ∧ s = s') ∨
    (block.toUInt64 < last.toUInt64 + client.wsize ∧ ∃ n s1,
      tftp_send_data sys s client (block.toUInt32 + 1) (block.toUInt64 * client.blksize)
        = some (n, s1) ∧
      (n ≤ 0 ∧ s1 = s' ∨
        ¬ n ≤ 0 ∧ handle_reader.loop sys client last fuel (block + 1) s1 = some s')) := by
  rw [handle_reader.loop] at h
  split at h
  swap
  · rename_i hout
    exact .inl ⟨hout, Option.some.inj h⟩
  rename_i hin
  obtain ⟨⟨n, s1⟩, hsend, h⟩ := Option.bind_eq_some_iff.mp h
  refine .inr ⟨hin, n, s1, hsend, ?_⟩
  simp only at h
  split at h
  · rename_i hret
    exact .inl ⟨hret, Option.some.inj h⟩
  · rename_i hret
    exact .inr ⟨hret, h⟩

/-- A loop that ends is not cut off. -/
theorem rounds_of_loop {last : UInt16} {fuel : ℕ} {block : UInt16} {s s' : State}
    (h : handle_reader.loop sys client last fuel block s = some s') :
    handle_reader.rounds sys client last fuel block s = some s' := by
  induction fuel generalizing block s with
  | zero => cases h
  | succ fuel ih =>
    rw [handle_reader.rounds]
    rcases loop_cases h with ⟨hout, rfl⟩ | ⟨hin, n, s1, hsend, hnext⟩
    · rw [if_neg hout]
    rw [if_pos hin, hsend]
    simp only [Option.bind_eq_bind, Option.bind_some]
    rcases hnext with ⟨hret, rfl⟩ | ⟨hret, hloop⟩
    · rw [if_pos hret]
      rfl
    · rw [if_neg hret]
      exact ih hloop

/-- More rounds change nothing. -/
theorem loop_fuel {last : UInt16} {fuel : ℕ} {block : UInt16} {s s' : State}
    (h : handle_reader.loop sys client last fuel block s = some s') {more : ℕ} :
    handle_reader.loop sys client last (fuel + more) block s = some s' := by
  induction fuel generalizing block s with
  | zero => cases h
  | succ fuel ih =>
    rw [Nat.succ_add, handle_reader.loop]
    rcases loop_cases h with ⟨hout, rfl⟩ | ⟨hin, n, s1, hsend, hnext⟩
    · rw [if_neg hout]
    rw [if_pos hin, hsend]
    simp only [Option.bind_eq_bind, Option.bind_some]
    rcases hnext with ⟨hret, rfl⟩ | ⟨hret, hloop⟩
    · rw [if_pos hret]
      rfl
    · rw [if_neg hret]
      exact ih hloop

section Ends

variable (hmalloc : ∀ t size, sys.malloc t size = true) (hfile : Unchanging sys client.fd content)
  (hblk : 0 < client.blksize.toNat) (hblk' : client.blksize.toNat < 2 ^ 31)

include hmalloc hfile hblk hblk' in
/-- A loop with a block number at which it ends, because the window does or the file, sends at most one packet
for each block before. -/
theorem loop_ends {last : UInt16} {e : ℕ} (he : e ≤ 65535)
    (hend : windowEnd client last ≤ e ∨ content.length ≤ e * client.blksize.toNat)
    (fuel k : ℕ) (hk : k ≤ e) (hfuel : e - k < fuel) (s : State) :
    ∃ sent t, handle_reader.loop sys client last fuel (UInt16.ofNat k) s
        = some (s.did (sends client.sock sent) t) ∧ sent.length ≤ e - k := by
  induction fuel generalizing k s with
  | zero => omega
  | succ fuel ih =>
    have hk' : k ≤ 65535 := Nat.le_trans hk he
    have hnum : (UInt16.ofNat k).toNat = k :=
      UInt16.toNat_ofNat_of_lt' (by rw [UInt16.size]; omega)
    rw [handle_reader.loop]
    simp only [ofNat_lt_window client last hk']
    -- the window is at its end: nothing is sent
    by_cases hin : k < windowEnd client last
    swap
    · rw [if_neg hin]
      exact ⟨[], 0, by simp [State.did, sends], Nat.zero_le _⟩
    obtain ⟨n, s', hsend⟩ := send_data_isSome hmalloc hblk' s ((UInt16.ofNat k).toUInt32 + 1)
      ((UInt16.ofNat k).toUInt64 * client.blksize)
    obtain ⟨sent, t, rfl, hsent, hover⟩ := send_data_spec hfile hblk hblk' s _ hsend
    rw [hnum] at hsent hover
    rw [if_pos hin, hsend]
    simp only [Option.bind_eq_bind, Option.bind_some]
    rcases Nat.lt_or_ge k e with hlt | hge
    · -- one packet at most, and the blocks behind it
      have hone : sent.length ≤ 1 := by
        rcases hsent with rfl | ⟨-, rfl⟩
        · exact Nat.zero_le 1
        · exact Nat.le_refl 1
      split
      · exact ⟨sent, t, rfl, by omega⟩
      · obtain ⟨sent', t', hrest, hlen⟩ :=
          ih (k + 1) hlt (by omega) (s.did (sends client.sock sent) t)
        refine ⟨sent ++ sent', t + t', ?_, ?_⟩
        · rw [ofNat_succ, hrest, State.did_did, sends, sends, sends, List.map_append]
        · rw [List.length_append]
          omega
    · -- the end of the file
      have hke : k = e := Nat.le_antisymm hk hge
      subst hke
      have hlen : content.length ≤ k * client.blksize.toNat :=
        hend.resolve_left (Nat.not_le.mpr hin)
      rw [if_pos (hover hlen)]
      rcases hsent with rfl | ⟨hlt, -⟩
      · exact ⟨[], t, rfl, Nat.zero_le _⟩
      · omega

end Ends

/-! ## Which windows are finite

The loop compares a 16-bit block number with a `size_t`. The window has an end if that number can
be reached, or if the file ends before. -/

/-- The number of packets that a window may have: as many as it says, and one if it says no positive
number. -/
def windowSize (v : ℤ) : ℕ := if 0 < v then v.toNat else 1

/-- The send loop comes to an end, whatever `send` returns, and has not sent more than a window. -/
def FiniteWindow (client : TftpClient) (v : ℤ) (content : List UInt8) (last : UInt16) : Prop :=
  ∀ sys : Sys, (∀ t size, sys.malloc t size = true) → Unchanging sys client.fd content →
    ∀ s, ∃ fuel s', handle_reader.loop sys client last fuel last s = some s' ∧
      (dataOn client.sock (newCalls s s')).length ≤ windowSize v

/-- A window that is counted in block numbers, or a file that is. A negative window is below the
block that was acknowledged, or has no end; then the file must have one within one block. -/
def WindowEnds (v : ℤ) (size blksize last : ℕ) : Prop :=
  v = 0 ∨
  (0 < v ∧ (last + v ≤ 65535 ∨ size ≤ 65535 * blksize)) ∨
  (v < 0 ∧ (-v ≤ last ∨ size ≤ min (last + 1) 65535 * blksize))

theorem windowEnd_size_t {v : ℤ} (hw : client.wsize = size_t v) (last : UInt16) :
    (windowEnd client last : ℤ) = (last.toNat + v) % 2 ^ 64 := by
  have hlast := last.toNat_lt
  rw [windowEnd, UInt64.toNat_add, UInt16.toNat_toUInt64, hw, size_t, UInt64.toNat_ofNat']
  omega

theorem dataOn_length_le (sock : ℕ) (sent : List (List UInt8)) :
    (dataOn sock (sends sock sent)).length ≤ sent.length := by
  rw [dataOn, sentOn_sends]
  exact List.length_filter_le _ _

/-- A block number at which the loop ends, with what it can have sent by then. -/
theorem finiteWindow_of_end {v : ℤ} {last : UInt16} (hblk : 0 < client.blksize.toNat)
    (hblk' : client.blksize.toNat < 2 ^ 31) {e : ℕ} (he : e ≤ 65535) (hlast : last.toNat ≤ e)
    (hend : windowEnd client last ≤ e ∨ content.length ≤ e * client.blksize.toNat)
    (hsize : e - last.toNat ≤ windowSize v) : FiniteWindow client v content last := by
  intro sys hmalloc hfile s
  obtain ⟨sent, t, hloop, hlen⟩ := loop_ends hmalloc hfile hblk hblk' he hend (e - last.toNat + 1)
    last.toNat hlast (Nat.lt_succ_self _) s
  rw [UInt16.ofNat_toNat] at hloop
  refine ⟨_, _, hloop, ?_⟩
  have hcalls : (s.did (sends client.sock sent) t).calls = s.calls ++ sends client.sock sent := rfl
  rw [newCalls_of_append hcalls]
  exact (dataOn_length_le client.sock sent).trans (hlen.trans hsize)

theorem finiteWindow_of_windowEnds {v : ℤ} (hv : v < 2 ^ 31) (hv' : -2 ^ 31 ≤ v)
    (hw : client.wsize = size_t v) {last : UInt16} (hblk : 0 < client.blksize.toNat)
    (hblk' : client.blksize.toNat < 2 ^ 31)
    (h : WindowEnds v content.length client.blksize.toNat last.toNat) :
    FiniteWindow client v content last := by
  have hbound := windowEnd_size_t hw last
  have hlast : last.toNat ≤ 65535 := Nat.le_of_lt_succ last.toNat_lt
  rcases h with rfl | ⟨hpos, hend | hend⟩ | ⟨hneg, hend | hend⟩
  · exact finiteWindow_of_end hblk hblk' hlast (Nat.le_refl _) (.inl (by omega)) (by omega)
  · apply finiteWindow_of_end (e := (last.toNat + v).toNat) hblk hblk' (by omega) (by omega)
    · left
      omega
    · rw [windowSize, if_pos hpos]
      omega
  · -- the file ends at a block number; a window without one is longer than that
    by_cases hfit : last.toNat + v ≤ 65535
    · apply finiteWindow_of_end (e := (last.toNat + v).toNat) hblk hblk' (by omega) (by omega)
      · left
        omega
      · rw [windowSize, if_pos hpos]
        omega
    · apply finiteWindow_of_end (e := 65535) hblk hblk' (Nat.le_refl _) hlast (.inr hend)
      rw [windowSize, if_pos hpos]
      omega
  · exact finiteWindow_of_end hblk hblk' hlast (Nat.le_refl _) (.inl (by omega)) (by omega)
  · apply finiteWindow_of_end hblk hblk' (Nat.min_le_right _ _) (by omega) (.inr hend)
    rw [windowSize, if_neg (by omega)]
    omega

/-- On a system that sends every packet, nothing else ends the loop. -/
theorem windowEnds_of_finiteWindow {v : ℤ} (hv : v < 2 ^ 31) (hv' : -2 ^ 31 ≤ v)
    (hw : client.wsize = size_t v) {last : UInt16} (hblk : 0 < client.blksize.toNat)
    (hblk' : client.blksize.toNat < 2 ^ 31) (h : FiniteWindow client v content last) :
    WindowEnds v content.length client.blksize.toNat last.toNat := by
  have hbound := windowEnd_size_t hw last
  have hlast : last.toNat ≤ 65535 := Nat.le_of_lt_succ last.toNat_lt
  have hmalloc : ∀ t size, (serving content).malloc t size = true := fun _ _ => rfl
  have hpread : ∀ t count offset, (serving content).pread t client.fd count offset
      = some ((content.drop offset.toNat).take count.toNat) := fun _ _ _ => rfl
  have hsend : ∀ t data, (serving content).send t client.sock data = (data.length : ℤ) :=
    fun _ _ => rfl
  have hfile : Unchanging (serving content) client.fd content := by
    intro t count offset data hdata
    rw [hpread] at hdata
    exact (Option.some.inj hdata).symm
  -- one system is enough to refute it: it serves the file and takes every packet
  have s : State := ⟨.running, [], [], [], [], 0⟩
  obtain ⟨fuel, s', hloop, hlen⟩ := h (serving content) hmalloc hfile s
  by_contra hnot
  unfold WindowEnds at hnot
  -- otherwise the bound is beyond every block number
  have hbig : 65536 ≤ windowEnd client last := by omega
  by_cases hlarge : 65535 * client.blksize.toNat < content.length
  -- every block number has bytes, so the counter wraps and the loop has no end
  · rw [loop_diverges (serving content) hmalloc hpread hsend hblk hblk' hbig hlarge] at hloop
    cases hloop
  · -- a negative window, and a file with two more blocks at least
    have hneg : v < 0 := by omega
    have hmore : min (last.toNat + 1) 65535 * client.blksize.toNat < content.length := by omega
    have hblocks := lt_fileBlocks_iff content hblk
    have hnum : fileBlocks content client.blksize.toNat ≤ 65535 := Nat.not_lt.mp fun hlt =>
      hlarge ((hblocks 65535).mp hlt)
    have htwo : last.toNat + 1 < fileBlocks content client.blksize.toNat :=
      (min_lt_iff.mp ((hblocks _).mpr hmore)).resolve_right (Nat.not_lt.mpr hnum)
    have hend : content.length ≤
        fileBlocks content client.blksize.toNat * client.blksize.toNat :=
      Nat.not_lt.mp fun hlt => Nat.lt_irrefl _ ((hblocks _).mpr hlt)
    have hwindow : fileBlocks content client.blksize.toNat ≤ windowEnd client last :=
      hnum.trans (Nat.le_of_succ_le hbig)
    obtain ⟨t, hsends⟩ := loop_sends (serving content) hmalloc hpread hsend hblk hblk' hnum hwindow
      (fun i hi => (hblocks i).mp hi) (.inr hend)
      (fuel + (fileBlocks content client.blksize.toNat + 1)) last.toNat
      (Nat.le_of_lt (Nat.lt_of_succ_lt htwo)) (by omega) s
    -- the loop sends the rest of the file, which is more than one packet
    rw [UInt16.ofNat_toNat, loop_fuel hloop] at hsends
    cases hsends
    rw [newCalls_did (List.prefix_refl _), newCalls, List.drop_length, List.nil_append, dataOn_packets,
      packets_length, windowSize, if_neg (by omega)] at hlen
    omega

/-- **The send window is finite** exactly if it ends at a block number, or the file does. -/
theorem window_finite_iff (client : TftpClient) (blksize wsize : List UInt8)
    (hblksize : 0 < atoi blksize) (hblk : client.blksize = size_t (atoi blksize))
    (hw : client.wsize = size_t (atoi wsize)) (content : List UInt8) (last : UInt16) :
    FiniteWindow client (atoi wsize) content last ↔
      WindowEnds (atoi wsize) content.length (atoi blksize).toNat last.toNat := by
  obtain ⟨hlo, hhi⟩ := atoi_range wsize
  obtain ⟨hblo, hbhi⟩ := atoi_range blksize
  have hnat : client.blksize.toNat = (atoi blksize).toNat := by
    rw [hblk, size_t, UInt64.toNat_ofNat']
    omega
  have hpos : 0 < client.blksize.toNat := by omega
  have hlt : client.blksize.toNat < 2 ^ 31 := by omega
  rw [← hnat]
  exact ⟨windowEnds_of_finiteWindow hhi hlo hw hpos hlt,
    finiteWindow_of_windowEnds hhi hlo hw hpos hlt⟩

/-- A transfer in blocks of one byte. -/
def byteByByte (wsize : UInt64) : TftpClient := ⟨⟨5, 7⟩, 4, 5, 1, 0, wsize, 1000⟩

/-- Two blocks at a time. -/
theorem window_finite_two : FiniteWindow (byteByByte 2) (atoi (ascii "2")) [1, 2, 3] 0 :=
  (window_finite_iff (byteByByte 2) (ascii "1") (ascii "2") (by decide +kernel) (by decide +kernel)
    (by decide +kernel) [1, 2, 3] 0).mpr (.inr (.inl ⟨by decide +kernel, .inl (by decide +kernel)⟩))

/-- A window of -1 blocks at the start of a file of two: both are sent. -/
theorem window_not_finite :
    ¬ FiniteWindow (byteByByte (size_t (atoi (ascii "-1")))) (atoi (ascii "-1")) [1, 2] 0 := by
  have hv : atoi (ascii "-1") = -1 := by decide +kernel
  rw [hv]
  intro h
  rcases windowEnds_of_finiteWindow (by decide) (by decide) rfl (by decide) (by decide) h with
    h | ⟨h, -⟩ | ⟨-, h | h⟩
  · exact absurd h (by decide)
  · exact absurd h (by decide)
  · exact absurd h (by decide)
  · exact absurd h (by decide +kernel)

end Loop

/-! ## Numbers and contents

The invariant of a read transfer: every packet carries the bytes that its number says, up to the
16 bits of the number. -/

/-- A packet carries the bytes of the file that its block number says, and some. The number 0 says nothing. -/
def InStep (content : List UInt8) (blksize : ℕ) (packet : List UInt8) : Prop :=
  be16At packet 2 ≠ 0 →
    packet = dataPacket (be16At packet 2) (chunk content blksize ((be16At packet 2).toNat - 1)) ∧
    chunk content blksize ((be16At packet 2).toNat - 1) ≠ []

/-- The round in which the peer of a transfer is heard, with what memory holds behind the datagram. -/
def peerRound (client : TftpClient) (datagram : List UInt8 × List UInt8) : Round :=
  .ready (only client.sock (.data client.sq datagram.1 datagram.2)) none

/-- An ACK, of whatever block. -/
def IsAck (datagram : List UInt8 × List UInt8) : Prop :=
  be16At (datagram.1.take 128 ++ datagram.2) 0 = OP_ACK

section InStep

variable {sys : Sys} {client : TftpClient} {content : List UInt8}

theorem inStep_dataPacket {blksize : ℕ} (hblk : 0 < blksize) {block : UInt16}
    (hinside : block.toNat * blksize < content.length) :
    InStep content blksize (dataPacket (block + 1) (chunk content blksize block.toNat)) := by
  intro hne
  rw [dataPacket_block] at hne ⊢
  -- the number on the wire is not 0, so it did not wrap
  have hback : (block + 1).toNat - 1 = block.toNat := by
    have h1 : UInt16.toNat 1 = 1 := rfl
    have hlt := block.toNat_lt
    have hpos : (block + 1).toNat ≠ 0 := fun h => hne (UInt16.toNat_inj.mp h)
    rw [UInt16.toNat_add] at hpos ⊢
    omega
  rw [hback]
  refine ⟨rfl, fun hempty => ?_⟩
  have hle := (chunk_eq_nil_iff content hblk block.toNat).mp hempty
  omega

variable (hfile : Unchanging sys client.fd content)
  (hblk : 0 < client.blksize.toNat) (hblk' : client.blksize.toNat < 2 ^ 31)

include hfile hblk hblk' in
theorem send_data_inStep (s : State) (block : UInt16) {n : ℤ} {s' : State}
    (h : tftp_send_data sys s client (block.toUInt32 + 1) (block.toUInt64 * client.blksize)
      = some (n, s')) :
    ∃ sent t, s' = s.did (sends client.sock sent) t ∧
      ∀ packet ∈ sent, InStep content client.blksize.toNat packet := by
  obtain ⟨sent, t, hs', hsent, -⟩ := send_data_spec hfile hblk hblk' s block h
  refine ⟨sent, t, hs', fun packet hp => ?_⟩
  rcases hsent with rfl | ⟨hinside, rfl⟩
  · exact absurd hp List.not_mem_nil
  · rw [List.mem_singleton.mp hp]
    exact inStep_dataPacket hblk hinside

include hfile hblk hblk' in
/-- Every round of the send loop is in step, also of one that does not end. -/
theorem rounds_inStep {last : UInt16} {n : ℕ} {block : UInt16} {s s' : State}
    (h : handle_reader.rounds sys client last n block s = some s') :
    ∃ sent t, s' = s.did (sends client.sock sent) t ∧
      ∀ packet ∈ sent, InStep content client.blksize.toNat packet := by
  induction n generalizing block s with
  | zero =>
    cases h
    exact ⟨[], 0, by simp [State.did, sends], fun packet hp => absurd hp List.not_mem_nil⟩
  | succ n ih =>
    rw [handle_reader.rounds] at h
    split at h
    swap
    · cases h
      exact ⟨[], 0, by simp [State.did, sends], fun packet hp => absurd hp List.not_mem_nil⟩
    obtain ⟨⟨ret, s1⟩, hsend, h⟩ := Option.bind_eq_some_iff.mp h
    obtain ⟨sent, t, rfl, hsent⟩ := send_data_inStep hfile hblk hblk' s block hsend
    simp only at h
    split at h
    · cases h
      exact ⟨sent, t, rfl, hsent⟩
    · obtain ⟨sent', t', rfl, hsent'⟩ := ih h
      refine ⟨sent ++ sent', t + t', ?_, ?_⟩
      · rw [State.did_did, sends, sends, sends, List.map_append]
      · intro packet hp
        rcases List.mem_append.mp hp with hp | hp
        · exact hsent packet hp
        · exact hsent' packet hp

theorem handle_reader_isAck (sys : Sys) (client : TftpClient) (s : State)
    {datagram : List UInt8 × List UInt8} (hack : IsAck datagram) :
    ∃ block, handle_reader sys s client (.data client.sq datagram.1 datagram.2)
      = (handle_reader.loop sys client block sys.fuel block s).map fun s => (1, s) := by
  have herror : OP_ACK ≠ OP_ERROR := by decide
  unfold IsAck at hack
  refine ⟨be16At (datagram.1.take 128 ++ datagram.2) 2, ?_⟩
  simp only [handle_reader, hack, ne_eq, not_true_eq_false, if_false, herror]

/-- Where a transfer stands behind some ACKs: what was sent is in step, and a server that still
runs has done nothing else. -/
structure Answering (client : TftpClient) (content : List UInt8) (s1 s : State)
    (sent : List (List UInt8)) : Prop where
  calls : s.calls = s1.calls ++ sends client.sock sent
  inStep : ∀ packet ∈ sent, InStep content client.blksize.toNat packet
  running : s.status = .running → ∃ t, s = s1.did (sends client.sock sent) t

include hfile hblk hblk' in
theorem step_answering {server : ℕ} {s1 s : State} {sent : List (List UInt8)}
    (hs1 : s1.status = .running → Books server s1) (hclient : client ∈ s1.readers)
    (h : Answering client content s1 s sent) {datagram : List UInt8 × List UInt8}
    (hack : IsAck datagram) :
    ∃ sent', Answering client content s1 (main.step sys s (peerRound client datagram)) sent' := by
  unfold main.step peerRound
  by_cases hrun : s.status = .running
  swap
  · rw [if_neg hrun]
    exact ⟨sent, h⟩
  obtain ⟨t, rfl⟩ := h.running hrun
  have hbooks : Books server (s1.did (sends client.sock sent) t) := did_books (hs1 hrun) _ t
  -- the client is still one of the readers, and the only one that is heard
  obtain ⟨before, after, hreaders⟩ := List.append_of_mem hclient
  obtain ⟨block, hhandle⟩ :=
    handle_reader_isAck sys client (s1.did (sends client.sock sent) t) hack
  simp only [if_pos hrun]
  cases hloop : handle_reader.loop sys client block sys.fuel block
    (s1.did (sends client.sock sent) t) with
  -- a loop that does not end: the server hangs, and has sent what it had before
  | none =>
    rw [hloop] at hhandle
    rw [round_reader_stuck sys hbooks hreaders hhandle]
    exact ⟨sent, rfl, h.inStep, fun hstatus => by cases hstatus⟩
  | some s' =>
    rw [hloop] at hhandle
    have hround := round_reader sys hbooks hreaders hhandle
    rw [if_neg (by decide)] at hround
    rw [hround]
    obtain ⟨sent', t', rfl, hsent'⟩ := rounds_inStep hfile hblk hblk' (rounds_of_loop hloop)
    have hall : (s1.did (sends client.sock sent) t).did (sends client.sock sent') t'
        = s1.did (sends client.sock (sent ++ sent')) (t + t') := by
      rw [State.did_did, sends, sends, sends, List.map_append]
    refine ⟨sent ++ sent', by rw [hall]; rfl, ?_, fun _ => ⟨t + t', hall⟩⟩
    intro packet hp
    rcases List.mem_append.mp hp with hp | hp
    · exact h.inStep packet hp
    · exact hsent' packet hp

include hfile hblk hblk' in
theorem steps_answering {server : ℕ} {s1 s : State} {sent : List (List UInt8)}
    (hs1 : s1.status = .running → Books server s1) (hclient : client ∈ s1.readers)
    (h : Answering client content s1 s sent) {acks : List (List UInt8 × List UInt8)}
    (hacks : ∀ ack ∈ acks, IsAck ack) :
    ∃ sent', Answering client content s1
      ((acks.map (peerRound client)).foldl (main.step sys) s) sent' := by
  induction acks generalizing s sent with
  | nil => exact ⟨sent, h⟩
  | cons ack acks ih =>
    obtain ⟨sent', hstep⟩ :=
      step_answering hfile hblk hblk' hs1 hclient h (hacks ack List.mem_cons_self)
    exact ih hstep fun a ha => hacks a (List.mem_cons_of_mem ack ha)

include hfile hblk hblk' in
/-- The answer to the request: an OACK, or the first block. -/
theorem begin_inStep {s s' : State} {sq : SockaddrQrtr} {do_oack : Bool} {o : RrqOptions}
    (hclient : client = ⟨sq, client.sock, client.fd, o.blksize, o.rsize, o.wsize, o.timeoutms⟩)
    (h : handle_rrq.begin sys s sq client.sock client.fd do_oack o = some s') :
    ∃ sent, s'.calls = s.calls ++ sends client.sock sent ∧
      ∀ packet ∈ sent, be16At packet 0 = OP_DATA → InStep content client.blksize.toNat packet := by
  unfold handle_rrq.begin at h
  simp only at h
  -- `fstat` for the size takes a tick and changes nothing else
  generalize hs1 : (if o.tsize ≠ -1 then s.tick else s) = s1 at h
  have hcalls : s1.calls = s.calls := by
    rw [← hs1]
    split <;> rfl
  rw [← hclient] at h
  split at h
  swap
  · cases h
  cases do_oack with
  | true =>
    rw [if_pos rfl, tftp_send_oack] at h
    obtain ⟨n, sent, t, hsend, hsent⟩ := send_did sys
      { s1.tick with readers := s1.readers ++ [client] } client.sock _
    rw [hsend] at h
    cases h
    rcases hsent with rfl | rfl
    · refine ⟨[], ?_, fun packet hp => absurd hp List.not_mem_nil⟩
      simp [State.did, State.tick, hcalls, sends]
    · refine ⟨[_], by simp only [State.did, State.tick, hcalls]; rfl, fun packet hp hdata => ?_⟩
      -- an OACK is no DATA packet
      rw [List.mem_singleton.mp hp] at hdata
      simp only [List.append_assoc, oack_opcode] at hdata
      exact absurd hdata (by decide)
  | false =>
    rw [if_neg Bool.false_ne_true] at h
    obtain ⟨⟨n, s2⟩, hsend, rfl⟩ := Option.map_eq_some_iff.mp h
    have hblock : (0 : UInt16).toUInt32 + 1 = 1 := rfl
    have hoffset : (0 : UInt16).toUInt64 * client.blksize = 0 := UInt64.zero_mul
    rw [← hblock, ← hoffset] at hsend
    obtain ⟨sent, t, rfl, hsent⟩ := send_data_inStep hfile hblk hblk' _ 0 hsend
    refine ⟨sent, ?_, fun packet hp _ => hsent packet hp⟩
    simp [State.did, State.tick, hcalls]

end InStep

theorem mem_dataOn {sock : ℕ} {sent : List (List UInt8)} {packet : List UInt8}
    (h : packet ∈ dataOn sock (sends sock sent)) : packet ∈ sent ∧ be16At packet 0 = OP_DATA := by
  rw [dataOn, sentOn_sends, List.mem_filter] at h
  exact ⟨h.1, of_decide_eq_true h.2⟩

/-- **Numbers and contents stay in step**: a read request is granted, some ACKs come, of any blocks, and the
send loop of one more is stopped anywhere. Every DATA packet of the transfer that was sent by then is in step
with the file. -/
theorem data_in_step (sys : Sys) (rounds : List Round) (sq : SockaddrQrtr) (data rest : List UInt8)
    (client : TftpClient)
    (hclient : (main.run sys (rounds ++ [.ready (fun _ => none) (some (.data sq data rest))])).readers
      = (main.run sys rounds).readers ++ [client])
    (content : List UInt8) (hfile : Unchanging sys client.fd content)
    (hblk : 0 < client.blksize.toNat) (hblk' : client.blksize.toNat < 2 ^ 31)
    (acks : List (List UInt8 × List UInt8)) (hacks : ∀ ack ∈ acks, IsAck ack) (last : UInt16) (n : ℕ)
    (s' : State)
    (hcut : handle_reader.rounds sys client last n last
      (main.run sys (rounds ++ [.ready (fun _ => none) (some (.data sq data rest))]
        ++ acks.map (peerRound client))) = some s') :
    ∀ packet ∈ dataOn client.sock (newCalls (main.run sys rounds) s'),
      InStep content client.blksize.toNat packet := by
  obtain ⟨-, filename, do_oack, o, s1, file, -, -, -, hopened, hfields, hbegin⟩ :=
    run_granted sys rounds hclient
  obtain ⟨first, hfirst, hfirstStep⟩ := begin_inStep hfile hblk hblk' hfields hbegin
  have hmem : client ∈
      (main.run sys (rounds ++ [.ready (fun _ => none) (some (.data sq data rest))])).readers := by
    rw [hclient]
    exact List.mem_append_right _ List.mem_cons_self
  have hbooks := main_run_books sys (rounds ++ [.ready (fun _ => none) (some (.data sq data rest))])
  have hsplit : main.run sys (rounds ++ [.ready (fun _ => none) (some (.data sq data rest))]
        ++ acks.map (peerRound client))
      = (acks.map (peerRound client)).foldl (main.step sys)
        (main.run sys (rounds ++ [.ready (fun _ => none) (some (.data sq data rest))])) := by
    rw [main.run, List.foldl_append]
    rfl
  rw [hsplit] at hcut
  generalize main.run sys (rounds ++ [.ready (fun _ => none) (some (.data sq data rest))]) = s2
    at hfirst hmem hbooks hcut
  -- before the first ACK nothing but the answer to the request was sent
  have hstart : Answering client content s2 s2 [] := by
    refine ⟨?_, fun packet hp => absurd hp List.not_mem_nil, fun _ => ⟨0, ?_⟩⟩
    · simp [sends]
    · simp [State.did, sends]
  obtain ⟨sent, hanswering⟩ := steps_answering hfile hblk hblk' hbooks hmem hstart hacks
  obtain ⟨more, t, rfl, hmore⟩ := rounds_inStep hfile hblk hblk' hcut
  -- the calls since the request: the socket and the file, then what was sent
  have hall : ((((acks.map (peerRound client)).foldl (main.step sys) s2)).did
        (sends client.sock more) t).calls
      = (main.run sys rounds).calls ++ ([.connect client.sock sq, .open_ client.fd file] ++
        sends client.sock (first ++ sent ++ more)) := by
    simp only [State.did, hanswering.calls, hfirst, hopened, sends, List.map_append,
      List.append_assoc]
  intro packet hp
  rw [newCalls_of_append hall, dataOn_append] at hp
  obtain ⟨hp, hdata⟩ := mem_dataOn ((List.mem_append.mp hp).resolve_left List.not_mem_nil)
  rcases List.mem_append.mp hp with hp | hp
  · rcases List.mem_append.mp hp with hp | hp
    · exact hfirstStep packet hp hdata
    · exact hanswering.inStep packet hp
  · exact hmore packet hp

/-- Three bytes in blocks of two, with the first block acknowledged before it was sent. -/
theorem data_in_step_three :
    ∃ s', handle_reader.rounds (serving [1, 2, 3]) ⟨⟨5, 7⟩, 4, 5, 2, 0, 1, 1000⟩ 0 1 0
        (main.run (serving [1, 2, 3])
          ([] ++ [.ready (fun _ => none) (some (.data ⟨5, 7⟩ (readRequest twoByTwo) []))]
            ++ [(ackPacket 1, [])].map (peerRound ⟨⟨5, 7⟩, 4, 5, 2, 0, 1, 1000⟩))) = some s' ∧
      ∀ packet ∈ dataOn 4 (newCalls (main.run (serving [1, 2, 3]) []) s'),
        InStep [1, 2, 3] 2 packet := by
  have hsome : (handle_reader.rounds (serving [1, 2, 3]) ⟨⟨5, 7⟩, 4, 5, 2, 0, 1, 1000⟩ 0 1 0
      (main.run (serving [1, 2, 3])
        ([] ++ [.ready (fun _ => none) (some (.data ⟨5, 7⟩ (readRequest twoByTwo) []))]
          ++ [(ackPacket 1, [])].map (peerRound ⟨⟨5, 7⟩, 4, 5, 2, 0, 1, 1000⟩)))).isSome := by
    decide +kernel
  obtain ⟨s', hs'⟩ := Option.isSome_iff_exists.mp hsome
  refine ⟨s', hs', data_in_step (serving [1, 2, 3]) [] ⟨5, 7⟩ (readRequest twoByTwo) []
    ⟨⟨5, 7⟩, 4, 5, 2, 0, 1, 1000⟩ (by decide +kernel) [1, 2, 3] ?_ (by decide) (by decide)
    [(ackPacket 1, [])] ?_ 0 1 s' hs'⟩
  · intro t count offset data hdata
    exact (Option.some.inj hdata).symm
  · intro ack hack
    rw [List.mem_singleton.mp hack, IsAck]
    decide

end Dragonboard.Tqftpserv
