import HighPerformanceServer.Response
/-!
# How large a file `GET` can send (requestData.cpp:437-444, this_util.cpp:33-53)

`writen` counts in an `ssize_t` and returns an `int`; its caller stores the `int` in a `size_t` and
compares it with `st_size`. The two conversions give the count back exactly below `2^31`.
-/

namespace HPServer

open CppStd

theorem toSize_sizeToInt_iff {n : Nat} (hn : n < 2 ^ 63) :
    toSize (sizeToInt n) = n ↔ n < 2147483648 := by
  constructor
  · intro h
    by_contra hbig
    rcases sizeToInt_cases n with hneg | heq | ⟨k, hk, hlt, hle⟩
    · have hlo : -2147483648 ≤ sizeToInt n := by unfold sizeToInt; rw [Int.bmod_def]; omega
      have hwrap := toSize_of_neg hneg hlo
      omega
    · have hhi : sizeToInt n < 2147483648 := by unfold sizeToInt; rw [Int.bmod_def]; omega
      omega
    · rw [hk, toSize_natCast (by omega)] at h
      omega
  · intro hlt
    rw [sizeToInt_of_lt hlt, toSize_natCast (by omega)]

/-- The last piece of a response, to a socket that takes all of it. -/
theorem sendOr_whole {writes : List WriteResult} {mem : Bytes} {n : Nat} (hn : n < 2 ^ 63)
    (hmem : n ≤ mem.length) (hacc : Accepting writes) {flag : AnalysisFlag}
    (h : (sendOr writes mem n fun _ => ([], .ok .success)).2 = .ok flag) :
    flag = .success ↔ n < 2147483648 := by
  obtain ⟨ret, hr, hcase⟩ := sendOr_returns h
  obtain ⟨-, hret⟩ := writen_accepting hacc hr
  rw [hret, if_pos hmem] at hcase
  rw [← toSize_sizeToInt_iff hn]
  split at hcase
  · rename_i hne
    rw [hcase.1]
    exact iff_of_false (by simp) hne
  · rename_i heq
    obtain ⟨hflag, -⟩ := hcase
    cases hflag
    exact iff_of_true rfl (not_not.1 heq)

/-- **Bug** (`this_util.cpp:33`, `:52`): the `int` that `writen` returns holds a count below `2^31`
only. A file that has been sent whole counts as sent exactly when it is smaller than that. -/
theorem wholeFile_success_iff {fs : FileSystem} {filetype : Option TypeText} {writes : List WriteResult}
    {r : RequestData} {size : Nat} {mem : Bytes} {flag : AnalysisFlag} (hget : r.method = .get)
    (hstat : fs.stat (cStr r.fileName) = some size) (hopen : fs.canOpen (cStr r.fileName) = true)
    (hmmap : fs.mmap (cStr r.fileName) size = some mem) (hmem : size ≤ mem.length)
    (hacc : Accepting writes) (hflag : (analysisRequest fs filetype writes r).flag = .ok flag) :
    flag = .success ↔ size < 2147483648 := by
  have hsize := fs.stat_lt _ _ hstat
  have hmapped : fs.mapped (cStr r.fileName) size = mem := by
    rw [FileSystem.mapped, if_pos hopen, hmmap, Option.getD_some]
  simp only [analysisRequest, hget] at hflag
  rcases analysisGet_cases fs filetype writes r with
    ⟨hnone, -⟩ | ⟨size', hstat', ⟨-, hreply⟩ | ⟨type, reply, -, htwo, hreply⟩⟩
  · cases hnone.symm.trans hstat
  · rw [hreply] at hflag
    cases hflag
  · obtain rfl : size' = size := Option.some.inj (hstat'.symm.trans hstat)
    have hfits := getHeader_fits r type hsize
    rw [hreply, htwo, hmapped] at hflag
    obtain ⟨rest, hrest, hlast, -⟩ := sendOr_readable (by unfold MAX_BUFF at hfits; omega) hacc hflag
    exact sendOr_whole hsize hmem hrest hlast

/-- A `write` that takes all it is offered. -/
theorem writen_atOnce {k n : Nat} (hn : 0 < n) (hk : n ≤ k) {mem : Bytes} (hmem : n ≤ mem.length)
    (writes : List WriteResult) :
    writen (.accepted k :: writes) mem n = ⟨mem.take n, .ok (sizeToInt n), writes⟩ := by
  obtain ⟨m, rfl⟩ := Nat.exists_eq_add_of_lt hn
  have hne : mem ≠ [] := by rintro rfl; simp at hmem
  have hlen : (mem.take (m + 1)).length = m + 1 := by rw [List.length_take, Nat.min_eq_left (by omega)]
  rw [Nat.zero_add] at hk hmem ⊢
  rw [writen, writenLoop, if_neg hne, Nat.min_eq_left hmem, Nat.min_eq_right hk]
  simp [writenLoop, hlen]

theorem sendOr_atOnce {k n : Nat} (hn : 0 < n) (hk : n ≤ k) {mem : Bytes} (hmem : n ≤ mem.length)
    (hlt : n < 2 ^ 63) (writes : List WriteResult) (next : List WriteResult → Bytes × Exec AnalysisFlag) :
    (sendOr (.accepted k :: writes) mem n next).2 =
      if n < 2147483648 then (next writes).2 else .ok .error := by
  simp only [sendOr, writen_atOnce hn hk hmem]
  by_cases h : n < 2147483648
  · rw [if_neg (not_not.2 ((toSize_sizeToInt_iff hlt).2 h)), if_pos h]
  · rw [if_pos (mt (toSize_sizeToInt_iff hlt).1 h), if_neg h]

/-- A file that two writes take whole. -/
theorem analysisGet_atOnce {fs : FileSystem} {r : RequestData} {size : Nat} {mem : Bytes} (type : TypeText)
    (hstat : fs.stat (cStr r.fileName) = some size) (hopen : fs.canOpen (cStr r.fileName) = true)
    (hmmap : fs.mmap (cStr r.fileName) size = some mem) (hmem : size ≤ mem.length) (hpos : 0 < size) :
    (analysisGet fs (some type) [.accepted MAX_BUFF, .accepted size] r).flag =
      .ok (if size < 2147483648 then .success else .error) := by
  have hsize := fs.stat_lt _ _ hstat
  obtain ⟨suffix, htype⟩ := fileType_ok r.fileName
  have hmapped : fs.mapped (cStr r.fileName) size = mem := by
    rw [FileSystem.mapped, if_pos hopen, hmmap, Option.getD_some]
  have hfits := getHeader_fits r type hsize
  have hheader : 0 < (getHeader r type.text size).length :=
    List.length_pos_iff.2 (by simpa using getHeader_ne_nil r type.text size [])
  have hbuff : MAX_BUFF = 4096 := rfl
  simp only [analysisGet, htype, hstat, hmapped]
  rw [sendOr_atOnce hheader (Nat.le_of_lt hfits) (Nat.le_refl _) (by omega), if_pos (by omega),
    sendOr_atOnce hpos (Nat.le_refl _) hmem hsize]
  split <;> rfl

/-- `GET /a`, with the file name already taken from it. -/
def getA : RequestData := { RequestData.new 3 5 (ascii "/") with method := .get, fileName := ascii "a" }

/-- A file of `2^31` bytes goes out whole and is reported as failed. -/
theorem twoGigabytes_failed :
    ¬ ∀ (fs : FileSystem) (filetype : Option TypeText) (writes : List WriteResult) (r : RequestData)
      (size : Nat) (mem : Bytes) (flag : AnalysisFlag), r.method = .get → fs.stat (cStr r.fileName) = some size →
      fs.canOpen (cStr r.fileName) = true → fs.mmap (cStr r.fileName) size = some mem →
      size ≤ mem.length → Accepting writes → (analysisRequest fs filetype writes r).flag = .ok flag →
      flag = .success := by
  intro h
  have hlen : (List.replicate 2147483648 NUL).length = 2147483648 := List.length_replicate
  generalize List.replicate 2147483648 NUL = text at hlen
  have hlt : text.length < 2 ^ 63 := by omega
  have hname : cStr getA.fileName = ascii "a" := by decide
  have hstat : (oneFile (ascii "a") text hlt).stat (cStr getA.fileName) = some text.length := by
    rw [hname]; simp [oneFile]
  have hopen : (oneFile (ascii "a") text hlt).canOpen (cStr getA.fileName) = true := by
    rw [hname]; simp [oneFile]
  have hmmap : (oneFile (ascii "a") text hlt).mmap (cStr getA.fileName) text.length = some text := by
    rw [hname]; simp [oneFile]
  have hflag := analysisGet_atOnce htmlText hstat hopen hmmap (Nat.le_refl _) (by omega)
  rw [if_neg (by omega)] at hflag
  cases h _ _ _ getA _ _ .error rfl hstat hopen hmmap (Nat.le_refl _) (by simp [Accepting]) hflag

theorem smallFile_success : AnalysisFlag.success = .success ↔ 2 < 2147483648 := by
  have hflag : (analysisRequest (oneFile (ascii "a") (ascii "hi") (by decide)) (some htmlText)
      [.accepted 4096, .error .eagain, .accepted 1, .accepted 1] getA).flag = .ok .success := by decide
  have hmmap : (oneFile (ascii "a") (ascii "hi") (by decide)).mmap (cStr getA.fileName) 2 =
      some (ascii "hi") := by decide
  exact wholeFile_success_iff rfl (by decide) (by decide) hmmap (by decide) (by simp [Accepting]) hflag

end HPServer
