import Bookstore.ResponseWriter

/-!
The two ranges of a file response. They describe the unsent bytes at every head
of the loop of `write` exactly when no short write inside the header reaches
what the last one left of it, and the file part stays in the range of `int`.
-/
namespace Bookstore.FileDelivery

open HttpTypes GatherWrites ResponseWriter MachineInt
open ResponseWriter.HttpConn

/-- The connection when `do_request` has found a file. -/
def serving (linger : Bool) (realFile : Bytes) (file : MappedFile) : HttpConn :=
  { HttpConn.reset with linger := linger, realFile := realFile, mmapFile := some file }

/-- The connection before the first byte of a file response is sent. -/
def sending (linger : Bool) (realFile : Bytes) (file : MappedFile) (buffer : WriteBuffer) :
    HttpConn :=
  { serving linger realFile file with
    writeBuf := buffer
    iv0 := ⟨.writeBuf, 0, buffer.idx⟩
    iv1 := ⟨.mappedFile, 0, file.bytes.length⟩
    ivCount := 2
    bytesToSend := Int32.ofInt buffer.idx + Int32.ofInt file.bytes.length }

/-- The header that `process_write(FileRequest)` builds. -/
def headerBuffer (linger : Bool) (realFile : Bytes) (file : MappedFile) : WriteBuffer :=
  (serving linger realFile file).fileHeader.writeBuf

theorem processWrite_serving (linger : Bool) (realFile : Bytes) {file : MappedFile}
    (hfile : file.bytes ≠ []) :
    (serving linger realFile file).processWrite .fileRequest =
      (true, sending linger realFile file (headerBuffer linger realFile file)) := by
  have hsize : (serving linger realFile file).fileSize = file.bytes.length := rfl
  have hlength : ¬ file.bytes.length = 0 := fun hzero => hfile (List.length_eq_zero_iff.mp hzero)
  have honly := fileHeader_only (serving linger realFile file)
  have hsame : (serving linger realFile file).fileHeader.fileSize = file.bytes.length := by
    rw [← honly]
    rfl
  simp only [processWrite, hsize, ne_eq, hlength, not_false_eq_true, if_true, hsame, sending,
    headerBuffer]
  rw [← honly]

/-- The range lies in `write_buf_` or in the mapped file. -/
def Inside (file : MappedFile) (seg : Segment Region) : Prop :=
  0 ≤ seg.offset ∧
    (seg.region = .writeBuf ∧ seg.offset + seg.length ≤ kWriteBufSize ∨
      seg.region = .mappedFile ∧ seg.offset + seg.length ≤ file.bytes.length)

/-- The ranges are those of the message without its first `bytes_sent_` bytes. -/
structure Describes (mem : Memory Region) (message : Bytes) (file : MappedFile) (c : HttpConn) :
    Prop where
  suffix : c.iv0.bytes mem ++ c.iv1.bytes mem = message.drop c.bytesSent.toInt.toNat
  inside0 : Inside file c.iv0
  inside1 : Inside file c.iv1

/-- What the code needs of a write of `n` bytes after the first `sent` ones: in
the header it stays below what was left of the header before, and past the
header the counters fit in `int`. -/
def ShortWriteSafe (headerLen total sent n : ℕ) : Prop :=
  if sent + n < headerLen then sent + (sent + n) < headerLen
  else sent + n < 2 ^ 31 ∧ total - (sent + n) < 2 ^ 31

section Positions

variable (file : MappedFile) (buffer : WriteBuffer)

/-- The ranges of the unsent bytes after the first `n`: the rest of the header
and the whole file, or the rest of the file. -/
structure Position (n : ℕ) (c : HttpConn) : Prop where
  counted : Counted (buffer.idx + file.bytes.length) n c
  writeBuf : c.writeBuf = buffer
  mmapFile : c.mmapFile = some file
  count : c.ivCount = 2
  le : n ≤ buffer.idx + file.bytes.length
  ranges : (n < buffer.idx ∨ n = 0) ∧ c.iv0 = ⟨.writeBuf, n, buffer.idx - n⟩ ∧
      c.iv1 = ⟨.mappedFile, 0, file.bytes.length⟩ ∨
    (buffer.idx ≤ n ∧ n < 2 ^ 31) ∧ c.iv0.region = .writeBuf ∧
      (0 ≤ c.iv0.offset ∧ c.iv0.offset ≤ kWriteBufSize) ∧ c.iv0.length = 0 ∧
      c.iv1 = ⟨.mappedFile, (n - buffer.idx : ℕ), buffer.idx + file.bytes.length - n⟩

variable {file buffer}

theorem position_sending (linger : Bool) (realFile : Bytes) :
    Position file buffer 0 (sending linger realFile file buffer) where
  counted := ⟨rfl, by
    simp only [sending, Nat.cast_add, Nat.cast_zero, Int.sub_zero, Int32.ofInt_add]⟩
  writeBuf := rfl
  mmapFile := rfl
  count := rfl
  le := Nat.zero_le _
  ranges := .inl ⟨.inr rfl, rfl, rfl⟩

/-- All unsent bytes are offered. -/
theorem Position.offered {n : ℕ} {c : HttpConn} (h : Position file buffer n c) :
    GatherWrites.offered c.segments = buffer.idx + file.bytes.length - n := by
  have hle := h.le
  have hsum : GatherWrites.offered c.segments = c.iv0.length + c.iv1.length := by
    simp [GatherWrites.offered, segments, h.count]
  rw [hsum]
  rcases h.ranges with ⟨hn, hiv0, hiv1⟩ | ⟨-, -, -, hlength, hiv1⟩
  · simp only [hiv0, hiv1]
    omega
  · simp only [hlength, hiv1]
    omega

theorem Position.offered_pos {n : ℕ} {c : HttpConn} (h : Position file buffer n c)
    (hleft : toCInt ((buffer.idx + file.bytes.length : ℕ) - n) ≠ 0) :
    0 < GatherWrites.offered c.segments := by
  rw [h.offered]
  rcases Nat.lt_or_eq_of_le h.le with hlt | rfl
  · omega
  · exact absurd (by rw [Int.sub_self]; rfl) hleft

theorem memory_writeBuf (c : HttpConn) (beyond : Memory Region) (i : ℕ)
    (h : i < c.writeBuf.bytes.length) : c.memory beyond .writeBuf i = c.writeBuf.bytes[i] := by
  simp [HttpConn.memory, h]

theorem memory_file {c : HttpConn} (hfile : c.mmapFile = some file) (beyond : Memory Region) (i : ℕ)
    (h : i < file.bytes.length) : c.memory beyond .mappedFile i = file.bytes[i] := by
  simp [HttpConn.memory, hfile, h]

/-- A short write inside the header. -/
theorem Position.adjust_header {n m : ℕ} {c : HttpConn} (h : Position file buffer n c)
    (hheader : n + m < buffer.idx) (hsafe : n + (n + m) < buffer.idx) (hpos : 0 < m) :
    Position file buffer (n + m) ((c.took m).adjust m) := by
  have hidx : buffer.idx < 1024 := buffer.idx_lt
  have hcounted := h.counted.took m
  have hsent : (c.took m).bytesSent.toInt = toCInt (n + m : ℕ) := by rw [hcounted.sent, toCInt]
  rcases h.ranges with ⟨-, h0, h1⟩ | ⟨hn, -⟩
  · have hlength : (c.took m).iv0.length = buffer.idx - n := by
      change c.iv0.length = _
      rw [h0]
    have hoffset : toCInt (n + m : ℕ) = (n + m : ℕ) :=
      toCInt_of_fits (by omega) (by unfold intMax; omega)
    have hrest : toCInt (buffer.idx - n : ℕ) = (buffer.idx - n : ℕ) :=
      toCInt_of_fits (by omega) (by unfold intMax; omega)
    have hlt : (c.took m).bytesSent.toInt < toCInt (c.took m).iv0.length := by
      rw [hsent, hlength, hoffset, hrest]
      omega
    refine ⟨hcounted.adjust m, ?_, ?_, ?_, by omega, .inl ⟨.inl hheader, ?_, ?_⟩⟩ <;>
      rw [adjust_of_lt m hlt]
    · exact h.writeBuf
    · exact h.mmapFile
    · exact h.count
    · dsimp only
      rw [hsent, hlength, hoffset, subSize, if_pos (by omega), Nat.sub_sub]
    · exact h1
  · omega

/-- A short write that reaches the file. -/
theorem Position.adjust_file {n m : ℕ} {c : HttpConn} (h : Position file buffer n c)
    (hm : m ≤ buffer.idx + file.bytes.length - n) (hheader : buffer.idx ≤ n + m)
    (hsafe : n + m < 2 ^ 31 ∧ buffer.idx + file.bytes.length - (n + m) < 2 ^ 31) :
    Position file buffer (n + m) ((c.took m).adjust m) := by
  have hidx : buffer.idx < 1024 := buffer.idx_lt
  have hle := h.le
  have hcounted := h.counted.took m
  have hsent : (c.took m).bytesSent.toInt = toCInt (n + m : ℕ) := by rw [hcounted.sent, toCInt]
  have hlength : (c.took m).iv0.length ≤ buffer.idx := by
    change c.iv0.length ≤ _
    rcases h.ranges with ⟨-, h0, -⟩ | ⟨-, -, -, h0, -⟩
    · rw [h0]
      exact Nat.sub_le _ _
    · rw [h0]
      exact Nat.zero_le _
  have hoffset : toCInt (n + m : ℕ) = (n + m : ℕ) :=
    toCInt_of_fits (by omega) (by unfold intMax; omega)
  have hrest : toCInt (c.took m).iv0.length = (c.took m).iv0.length :=
    toCInt_of_fits (by omega) (by unfold intMax; omega)
  have hge : toCInt (c.took m).iv0.length ≤ (c.took m).bytesSent.toInt := by
    rw [hsent, hrest, hoffset]
    have hranges := h.ranges
    omega
  refine ⟨hcounted.adjust m, ?_, ?_, ?_, by omega, .inr ⟨⟨hheader, hsafe.1⟩, ?_⟩⟩ <;>
    rw [adjust_of_le m hge]
  · exact h.writeBuf
  · exact h.mmapFile
  · exact h.count
  · have hfrom : ((c.took m).bytesSent - Int32.ofInt (c.took m).writeBuf.idx).toInt =
        (n + m - buffer.idx : ℕ) := by
      have hbuffer : (c.took m).writeBuf = buffer := h.writeBuf
      rw [hbuffer, hcounted.sent, ← Int32.ofInt_sub, ← toCInt, toCInt_of_fits]
      · omega
      · omega
      · unfold intMax
        omega
    have hto : (c.took m).bytesToSend.toInt.toNat =
        buffer.idx + file.bytes.length - (n + m) := by
      rw [hcounted.left, ← toCInt, toCInt_of_fits]
      · omega
      · omega
      · unfold intMax
        omega
    have hget : (c.took m).mmapGet = .mappedFile := by
      have hfile : (c.took m).mmapFile = some file := h.mmapFile
      rw [mmapGet, hfile]
    have hiv0 : (c.took m).iv0 = c.iv0 := rfl
    dsimp only
    rw [hfrom, hto, hget, hiv0]
    rcases h.ranges with ⟨hn, h0, -⟩ | ⟨-, hregion, hoff, -, -⟩
    · rw [h0]
      exact ⟨rfl, ⟨by dsimp only; omega, by dsimp only; unfold kWriteBufSize; omega⟩, rfl, rfl⟩
    · exact ⟨hregion, hoff, rfl, rfl⟩

/-- A safe short write leads to the next position. -/
theorem Position.adjust {n m : ℕ} {c : HttpConn} (h : Position file buffer n c)
    (hm : m ≤ buffer.idx + file.bytes.length - n)
    (hsafe : ShortWriteSafe buffer.idx (buffer.idx + file.bytes.length) n m) (hpos : 0 < m) :
    Position file buffer (n + m) ((c.took m).adjust m) := by
  by_cases hheader : n + m < buffer.idx
  · rw [ShortWriteSafe, if_pos hheader] at hsafe
    exact h.adjust_header hheader hsafe hpos
  · rw [ShortWriteSafe, if_neg hheader] at hsafe
    exact h.adjust_file hm (Nat.le_of_not_lt hheader) hsafe

/-- The ranges at a position are the unsent bytes. -/
theorem Position.describes {n : ℕ} {c : HttpConn} {mem : Memory Region}
    (h : Position file buffer n c)
    (hbuffer : ∀ (i : ℕ) (hi : i < buffer.bytes.length), mem .writeBuf i = buffer.bytes[i])
    (hfile : ∀ (i : ℕ) (hi : i < file.bytes.length), mem .mappedFile i = file.bytes[i]) :
    Describes mem (buffer.header ++ file.bytes) file c := by
  have hidx : buffer.idx < 1024 := buffer.idx_lt
  have hle := h.le
  have hheader : ∀ (i : ℕ) (hi : i < buffer.header.length),
      mem .writeBuf i = buffer.header[i] := by
    intro i hi
    rw [hbuffer i (by rw [buffer.length_header] at hi; rw [buffer.size]; exact hi.trans buffer.idx_lt)]
    simp [WriteBuffer.header]
  have hwhole : Segment.bytes mem ⟨.mappedFile, (0 : ℕ), file.bytes.length⟩ = file.bytes :=
    Segment.bytes_eq_drop hfile (Nat.zero_add _)
  have hsent : c.bytesSent.toInt.toNat = n := by
    rw [h.counted.sent, ← toCInt, toCInt_of_fits]
    · rfl
    · omega
    · rcases h.ranges with ⟨hn, -⟩ | ⟨hn, -⟩ <;> unfold intMax <;> omega
  rcases h.ranges with ⟨hn, h0, h1⟩ | ⟨hn, hregion, hoffset, h0, h1⟩
  · refine ⟨?_, ?_, ?_⟩
    · have hrest : Segment.bytes mem ⟨.writeBuf, n, buffer.idx - n⟩ = buffer.header.drop n :=
        Segment.bytes_eq_drop hheader (by rw [buffer.length_header]; omega)
      rw [h0, h1, hrest, hsent, List.drop_append_of_le_length (by rw [buffer.length_header]; omega)]
      exact congrArg _ hwhole
    · rw [h0]
      exact ⟨by dsimp only; omega, .inl ⟨rfl, by dsimp only; unfold kWriteBufSize; omega⟩⟩
    · rw [h1]
      exact ⟨le_refl _, .inr ⟨rfl, by dsimp only; omega⟩⟩
  · refine ⟨?_, ?_, ?_⟩
    · have hnothing : c.iv0.bytes mem = [] := by
        rw [← List.length_eq_zero_iff, Segment.length_bytes, h0]
      have hrest : Segment.bytes mem ⟨.mappedFile, (n - buffer.idx : ℕ),
          buffer.idx + file.bytes.length - n⟩ = file.bytes.drop (n - buffer.idx) :=
        Segment.bytes_eq_drop hfile (by omega)
      have hgone : buffer.header.drop n = [] :=
        List.drop_eq_nil_of_le (by rw [buffer.length_header]; exact hn.1)
      rw [hnothing, h1, hrest, hsent, List.drop_append, buffer.length_header, hgone]
    · exact ⟨hoffset.1, .inl ⟨hregion, by rw [h0]; omega⟩⟩
    · rw [h1]
      exact ⟨by dsimp only; omega, .inr ⟨rfl, by dsimp only; omega⟩⟩

/-- A short write that leaves the ranges right was a safe one. -/
theorem Position.safe_of_describes {n m : ℕ} {c : HttpConn} {mem : Memory Region}
    (h : Position file buffer n c) (hm : m ≤ buffer.idx + file.bytes.length - n) (hpos : 0 < m)
    (hmore : 0 < toCInt ((buffer.idx + file.bytes.length : ℕ) - (n + m : ℕ)))
    (hnext : Describes mem (buffer.header ++ file.bytes) file ((c.took m).adjust m)) :
    ShortWriteSafe buffer.idx (buffer.idx + file.bytes.length) n m := by
  have hidx : buffer.idx < 1024 := buffer.idx_lt
  have hsize := file.size_lt
  have hle := h.le
  have hcounted := h.counted.took m
  have hsent : (c.took m).bytesSent.toInt = toCInt (n + m : ℕ) := by rw [hcounted.sent, toCInt]
  have hleft : (c.took m).bytesToSend.toInt =
      toCInt ((buffer.idx + file.bytes.length : ℕ) - (n + m : ℕ)) := by
    rw [hcounted.left, toCInt]
  have hfrom : ((c.took m).bytesSent - Int32.ofInt (c.took m).writeBuf.idx).toInt =
      toCInt ((n + m : ℕ) - buffer.idx) := by
    have hbuffer : (c.took m).writeBuf = buffer := h.writeBuf
    rw [hbuffer, hcounted.sent, ← Int32.ofInt_sub, toCInt]
  have hiv0 : (c.took m).iv0 = c.iv0 := rfl
  have hlength : c.iv0.length = buffer.idx - n ∨ buffer.idx ≤ n ∧ c.iv0.length = 0 := by
    rcases h.ranges with ⟨-, h0, -⟩ | ⟨hn, -, -, h0, -⟩
    · exact .inl (by rw [h0])
    · exact .inr ⟨hn.1, h0⟩
  have hrest : toCInt c.iv0.length = c.iv0.length :=
    toCInt_of_fits (by omega) (by unfold intMax; omega)
  obtain ⟨q, hq, -, hbound⟩ := exists_toCInt_eq (n + m : ℕ)
  obtain ⟨q', hq', -, hbound'⟩ :=
    exists_toCInt_eq ((buffer.idx + file.bytes.length : ℕ) - (n + m : ℕ))
  by_cases hcmp : toCInt (c.took m).iv0.length ≤ (c.took m).bytesSent.toInt
  · rw [adjust_of_le m hcmp] at hnext
    rw [hiv0, hrest, hsent] at hcmp
    have hlengths := congrArg List.length hnext.suffix
    have hinside := hnext.inside1.1
    simp only [List.length_append, Segment.length_bytes, List.length_drop, buffer.length_header,
      hleft, hsent, hfrom] at hlengths hinside
    unfold ShortWriteSafe
    split
    · rename_i hheader
      rw [toCInt_of_fits (by omega) (by unfold intMax; omega)] at hinside
      omega
    · obtain ⟨x, hx⟩ := Int.eq_ofNat_of_zero_le (show 0 ≤ toCInt (n + m : ℕ) by omega)
      obtain ⟨y, hy⟩ := Int.eq_ofNat_of_zero_le (Int.le_of_lt hmore)
      rw [hx] at hq hbound hlengths
      rw [hy] at hq' hbound' hlengths
      simp only [Int.toNat_natCast] at hlengths
      omega
  · rw [adjust_of_lt m (Int.not_le.mp hcmp)] at hnext
    rw [hiv0, hrest, hsent] at hcmp
    obtain ⟨hoffset, ⟨-, hfits⟩ | ⟨hregion, -⟩⟩ := hnext.inside0
    · simp only [hiv0, hsent, kWriteBufSize, subSize] at hoffset hfits
      unfold ShortWriteSafe
      split
      · omega
      · split at hfits <;> omega
    · cases hregion

end Positions

/-! ## The invariant of the two ranges -/

section Delivery

variable (linger : Bool) (realFile : Bytes) (file : MappedFile) (beyond : Memory Region)

/-- The header, then the file. -/
def fileMessage : Bytes := (headerBuffer linger realFile file).header ++ file.bytes

/-- The memory while the file is sent. -/
def fileMemory : Memory Region :=
  (sending linger realFile file (headerBuffer linger realFile file)).memory beyond

/-- The run of `process_write(FileRequest)` and the calls of `write` after it. -/
def fileRun (results : ℕ → Result) : ℕ → Run HttpConn :=
  write.after (fileMemory linger realFile file beyond)
    ((serving linger realFile file).respond .fileRequest) results

/-- Both ranges describe the unsent suffix at every head of the loop. -/
def RangesRight (results : ℕ → Result) : Prop :=
  ∀ k c, write.head (fileRun linger realFile file beyond results k).phase = some c →
    Describes (fileMemory linger realFile file beyond) (fileMessage linger realFile file) file c

variable {file}

theorem respond_serving (hfile : file.bytes ≠ []) :
    (serving linger realFile file).respond .fileRequest =
      (sending linger realFile file (headerBuffer linger realFile file)).enter := by
  rw [respond, processWrite_serving linger realFile hfile, if_pos rfl]

/-- A partial write that leaves bytes to send leads to another head. -/
theorem head_succ {mem : Memory Region} {c₀ c : HttpConn} {buffer : WriteBuffer}
    {results : ℕ → Result} {k n : ℕ} (hobeys : write.Obeys mem c₀.enter results)
    (hk : Unfinished (buffer.idx + file.bytes.length) results (k + 1))
    (hhead : write.head (write.after mem c₀.enter results k).phase = some c)
    (hc : Position file buffer (sent results k) c) (hr : results k = .accepted n) :
    0 < n ∧ n ≤ buffer.idx + file.bytes.length - sent results k ∧
      0 < toCInt ((buffer.idx + file.bytes.length : ℕ) - (sent results k + n : ℕ)) ∧
      write.head (write.after mem c₀.enter results (k + 1)).phase =
        some ((c.took n).adjust n) := by
  have hsent : sent results (k + 1) = sent results k + n := by rw [sent, hr, Result.count]
  have hoffered := hc.offered_pos (hk.mono (Nat.le_succ k)).left_ne_zero
  obtain ⟨hpos, hle⟩ := count_pos hobeys hhead hoffered hr
  have hmore := hk.2 (k + 1) (Nat.le_refl _) (by omega)
  rw [hsent] at hmore
  refine ⟨hpos, hc.offered ▸ hle, hmore, ?_⟩
  rw [Sender.after_succ_of_head hhead, hr]
  rcases hc.counted.next_accepted n with ⟨hdone, -⟩ | ⟨-, hnext⟩
  · omega
  · change write.head (c.next (.accepted n)) = _
    rw [hnext, Sender.head_looping]

/-- Exactly when the ranges are right throughout a run. -/
theorem describes_unsent_iff (hfile : file.bytes ≠ []) (results : ℕ → Result)
    (hobeys : write.Obeys (fileMemory linger realFile file beyond)
      ((serving linger realFile file).respond .fileRequest) results) :
    RangesRight linger realFile file beyond results ↔
    ∀ k n, results k = .accepted n →
      Unfinished (fileMessage linger realFile file).length results (k + 1) →
      ShortWriteSafe (headerBuffer linger realFile file).header.length
        (fileMessage linger realFile file).length (sent results k) n := by
  let buffer := headerBuffer linger realFile file
  have htotal : (fileMessage linger realFile file).length = buffer.idx + file.bytes.length := by
    rw [fileMessage, List.length_append, WriteBuffer.length_header]
  have hbuffer : ∀ (i : ℕ) (hi : i < buffer.bytes.length),
      fileMemory linger realFile file beyond .writeBuf i = buffer.bytes[i] :=
    memory_writeBuf (sending linger realFile file buffer) beyond
  have hmapped : ∀ (i : ℕ) (hi : i < file.bytes.length),
      fileMemory linger realFile file beyond .mappedFile i = file.bytes[i] :=
    memory_file rfl beyond
  have hcounted : ∀ n c, Position file buffer n c → Counted (buffer.idx + file.bytes.length) n c :=
    fun n c h => h.counted
  have hoffered : ∀ n c, Position file buffer n c →
      toCInt ((buffer.idx + file.bytes.length : ℕ) - n) ≠ 0 → 0 < offered c.segments :=
    fun n c h hleft => h.offered_pos hleft
  rw [WriteBuffer.length_header, htotal]
  unfold RangesRight fileRun
  rw [respond_serving linger realFile hfile] at hobeys ⊢
  constructor
  · intro hdescribes
    have hsafe : ∀ k c n, Unfinished (buffer.idx + file.bytes.length) results (k + 1) →
        write.head (write.after (fileMemory linger realFile file beyond)
          (sending linger realFile file buffer).enter results k).phase = some c →
        Position file buffer (sent results k) c → results k = .accepted n →
        ShortWriteSafe buffer.idx (buffer.idx + file.bytes.length) (sent results k) n := by
      intro k c n hk hhead hc hr
      obtain ⟨hpos, hle, hmore, hnext⟩ := head_succ hobeys hk hhead hc hr
      exact hc.safe_of_describes hle hpos hmore (hdescribes (k + 1) _ hnext)
    intro k n hr hk
    obtain ⟨c, hhead, hc⟩ := head_of_unfinished hobeys hcounted (position_sending linger realFile)
      hoffered (fun k c n hk hhead hc hr => by
        obtain ⟨hpos, hle, -, -⟩ := head_succ hobeys hk hhead hc hr
        exact hc.adjust hle (hsafe k c n hk hhead hc hr) hpos)
      (hk.mono (Nat.le_succ k))
    exact hsafe k c n hk hhead hc hr
  · intro hsafe k c hc
    have hstep : ∀ k c n, Unfinished (buffer.idx + file.bytes.length) results (k + 1) →
        write.head (write.after (fileMemory linger realFile file beyond)
          (sending linger realFile file buffer).enter results k).phase = some c →
        Position file buffer (sent results k) c → results k = .accepted n →
        Position file buffer (sent results k + n) ((c.took n).adjust n) := by
      intro k c n hk hhead hc hr
      obtain ⟨hpos, hle, -, -⟩ := head_succ hobeys hk hhead hc hr
      exact hc.adjust hle (hsafe k n hr hk) hpos
    have hstart := @position_sending file buffer linger realFile
    have hk := unfinished_of_head hobeys hcounted hstart hoffered hstep hc
    obtain ⟨d, hd, hposition⟩ := head_of_unfinished hobeys hcounted hstart hoffered hstep hk
    cases Option.some.inj (hc.symm.trans hd)
    exact hposition.describes hbuffer hmapped

end Delivery

def smallPage : MappedFile := ⟨ascii "<h1>", by decide⟩

/-- 30 bytes of a 79 byte header, then 15 more, then the rest. -/
def smallShortWrites : ℕ → Result
  | 0 => .accepted 30
  | 1 => .accepted 15
  | _ => .accepted 38

/-- Two writes end in the header, but near its start, so both ranges stay right. -/
theorem describes_unsent_small :
    RangesRight false (ascii "/index.html") smallPage (fun _ _ => 0) smallShortWrites := by
  refine (describes_unsent_iff false (ascii "/index.html") (fun _ _ => 0) (by decide)
    smallShortWrites ?_).mpr ?_
  · exact @Sender.obeys_of_returned _ _ _ _ _ _ 3 (by decide) (by decide +kernel)
  · intro k n hr hk
    match k with
    | 0 =>
      cases hr
      unfold ShortWriteSafe
      decide
    | 1 =>
      cases hr
      unfold ShortWriteSafe
      decide
    | k + 2 => exact absurd (hk.2 3 (by omega) (by decide)) (by decide)

/-- 50 bytes of a 79 byte header, then 10 more: the second range starts before
the file. -/
def twoShortWrites : ℕ → Result
  | 0 => .accepted 50
  | 1 => .accepted 10
  | _ => .accepted 23

theorem two_short_writes_in_header :
    ¬ ∀ (linger : Bool) (realFile : Bytes) (file : MappedFile) (beyond : Memory Region)
        (results : ℕ → Result), file.bytes ≠ [] →
      write.Obeys (fileMemory linger realFile file beyond)
        ((serving linger realFile file).respond .fileRequest) results →
      RangesRight linger realFile file beyond results := by
  intro h
  have hright := h false (ascii "/index.html") smallPage (fun _ _ => 0) twoShortWrites (by decide)
    (@Sender.obeys_of_returned _ _ _ _ _ _ 3 (by decide) (by decide +kernel)) 2
  have hwrong : (write.head (fileRun false (ascii "/index.html") smallPage (fun _ _ => 0)
      twoShortWrites 2).phase).any (fun c => decide (c.iv1.offset < 0)) = true := by
    decide
  obtain ⟨c, hc, hoffset⟩ := (Option.any_eq_true _ _).mp hwrong
  exact absurd (hright c hc).inside1.1 (Int.not_le.mpr (of_decide_eq_true hoffset))

end Bookstore.FileDelivery
