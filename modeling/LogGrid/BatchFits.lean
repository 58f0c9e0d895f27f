import LogGrid.BatchSize
import LogGrid.Net.Framing
import LogGrid.Worker.WorkerClient
import Mathlib.Algebra.Order.BigOperators.Group.List

/-!
# Batches that fit

The lines that start in a chunk are no longer than the chunk and one line more,
and each of them gets the name of its file and a length in front. With that a
batch fits its frame, as long as no line of the files is absurdly long.
-/

open LogGrid.StandardLayout LogGrid.Lines LogGrid.Ifstream LogGrid.BatchCodec LogGrid.Master
  LogGrid.FileProcessor

namespace LogGrid.BatchSize

/-- No line that a worker can read is as long as 2 GiB. -/
def ShortLines (host : Host) : Prop :=
  ∀ name file, host.openFile name = some file →
    ∀ line ∈ linesIn newline file.bytes 0 file.bytes.length, line.length < 2 ^ 31

theorem dropCr_length_le (line : Bytes) : (dropCr line).length ≤ line.length := by
  unfold dropCr
  split
  · rw [List.length_dropLast]
    exact Nat.sub_le _ _
  · exact Nat.le_refl _

theorem linesSize_sublist {lines lines' : List Bytes} (h : lines.Sublist lines') :
    linesSize lines ≤ linesSize lines' :=
  (h.map fun line : Bytes => 4 + line.length).sum_le_sum fun _ _ => Nat.zero_le _

theorem linesSize_matching_le (pattern : Bytes → Bool) (name : Bytes) (file : LogFile) (s e limit : Nat)
    (hlimit : ∀ p, StartsAt newline file.bytes p → (lineAt newline file.bytes p).length ≤ limit) :
    linesSize (matching pattern name file s e) ≤ (e - s) * (6 + name.length) + limit := by
  have hall : linesSize (matching pattern name file s e) ≤
      ((linesIn newline file.bytes s e).map fun line => (5 + name.length) + (line.length + 1)).sum := by
    have hsub : ((((linesIn newline file.bytes s e).map dropCr).filter pattern).map (formatLine name)).Sublist
        (((linesIn newline file.bytes s e).map dropCr).map (formatLine name)) :=
      List.filter_sublist.map (formatLine name)
    refine Nat.le_trans (linesSize_sublist hsub) ?_
    unfold linesSize
    rw [List.map_map, List.map_map]
    refine List.sum_le_sum fun line _ => ?_
    have hcr := dropCr_length_le line
    have hcolon : (ascii ": ").length = 2 := rfl
    simp only [Function.comp_apply, formatLine, List.length_append, hcolon]
    omega
  have hlines := linesIn_size_le newline file.bytes limit hlimit s e
  have hcount := starts_length_le newline file.bytes s e
  have hlength : (linesIn newline file.bytes s e).length ≤ e - s := by
    rw [linesIn, List.length_map]
    exact hcount
  rw [List.sum_map_add, List.map_const', List.sum_replicate, Nat.nsmul_eq_mul] at hall
  calc linesSize (matching pattern name file s e)
      ≤ (linesIn newline file.bytes s e).length * (5 + name.length) +
          ((linesIn newline file.bytes s e).map fun line => line.length + 1).sum := hall
    _ ≤ (e - s) * (5 + name.length) + ((e - s) + limit) :=
        Nat.add_le_add (Nat.mul_le_mul_right _ hlength) hlines
    _ = (e - s) * (6 + name.length) + limit := by ring

theorem results_size (host : Host) (task : TaskPayload) (hchunk : InChunk task) (hlines : ShortLines host) :
    linesSize (results host task) ≤ chunkSize.toNat * 262 + 2 ^ 31 := by
  have hname : task.filename.cStr.length ≤ 256 :=
    Nat.le_trans (List.takeWhile_prefix _).length_le task.filename.length_eq.le
  refine Nat.le_trans (linesSize_sublist (List.take_sublist _ _)) ?_
  unfold hits
  split
  · rename_i file pattern hopen _
    have hlimit : ∀ p, StartsAt newline file.bytes p → (lineAt newline file.bytes p).length ≤ 2 ^ 31 := by
      intro p hp
      refine Nat.le_of_lt (hlines _ file hopen _ ?_)
      exact List.mem_map_of_mem ((mem_starts _ _ _ _ _).mpr ⟨Nat.zero_le p, hp.1, hp⟩)
    have hle := linesSize_matching_le pattern task.filename.cStr file task.startOffset.toNat
      task.endOffset.toNat (2 ^ 31) hlimit
    refine Nat.le_trans hle (Nat.add_le_add_right (Nat.mul_le_mul ?_ (by omega)) _)
    have := hchunk.2.2
    omega
  · exact Nat.zero_le _

/-- **An answer fits its frame** when no line of the files is as long as 2 GiB: the size in its header is the
length of its body. -/
theorem answer_fits (host : Host) (task : TaskPayload) (hchunk : InChunk task) (hlines : ShortLines host) :
    Net.Framing.Sized (WorkerClient.answer host task) := by
  obtain ⟨-, hresults, -⟩ := searchTask_results host task hchunk
  have hsize := results_size host task hchunk hlines
  have hbody : (WorkerClient.answer host task).body.length < 2 ^ 32 := by
    rw [WorkerClient.answer_body, hresults]
    have hchunkSize : chunkSize.toNat = 5242880 := rfl
    simp only [List.length_append, encodeLines_length, toBytes_length, byteSize_uint32, byteSize_uint64]
    omega
  show (UInt32.ofNat (WorkerClient.answer host task).body.length).toNat = _
  rw [UInt32.toNat_ofNat', Nat.mod_eq_of_lt hbody]

theorem results_short (host : Host) (task : TaskPayload) (hchunk : InChunk task) (hlines : ShortLines host) :
    ∀ line ∈ results host task, line.length < 2 ^ 32 := by
  intro line hline
  obtain ⟨i, hi, rfl⟩ := List.mem_iff_getElem.mp hline
  have hle := length_le_linesSize (results host task) i hi
  have hsize := results_size host task hchunk hlines
  have hchunkSize : chunkSize.toNat = 5242880 := rfl
  omega

theorem shortLines_of_files {host : Host}
    (h : ∀ name file, host.openFile name = some file → file.bytes.length < 2 ^ 31) : ShortLines host := by
  intro name file hopen line hline
  obtain ⟨p, -, rfl⟩ := List.mem_map.mp hline
  have hle := lineAt_length_le newline file.bytes p
  have hfile := h name file hopen
  omega

end LogGrid.BatchSize
