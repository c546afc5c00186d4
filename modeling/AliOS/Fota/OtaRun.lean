/-
  Histories of updates: the image that is booted is the one whose MD5 was compared.

  While every attempt that receives something goes on with the md5 of the stored breakpoint, the
  stored context has hashed the bytes of the flash below the breakpoint, whatever the attempts
  end with; and in an attempt `g_ctx` has hashed these and what is written behind them.
-/
import AliOS.Fota.Ota
import AliOS.Lib.Trans

namespace Fota

variable {nv : Nv} {a : Attempt} {t t' : Task} {l l' : Loop} {ws : List Write} {bytes base : List UInt8}
  {start n : ℕ}

/-- The bytes of the flash below an offset. -/
def Nv.kept (nv : Nv) (n : ℕ) : List UInt8 := (List.range n).map nv.flash

/-- The writes of these bytes from an address on. -/
def flashWrites (start : ℕ) (bytes : List UInt8) : List Write := bytes.mapIdx fun i b => .flash (start + i) b

theorem flashWrites_cons (b : UInt8) : flashWrites start (b :: bytes) = .flash start b :: flashWrites (start + 1) bytes := by
  rw [flashWrites, List.mapIdx_cons, flashWrites]
  refine congrArg (Write.flash start b :: ·) (List.ext_getElem (by simp) fun i _ _ => ?_)
  simp [Nat.add_comm 1 i, Nat.add_assoc]

theorem flashWrites_append (bytes' : List UInt8) :
    flashWrites start (bytes ++ bytes') = flashWrites start bytes ++ flashWrites (start + bytes.length) bytes' := by
  rw [flashWrites, List.mapIdx_append]
  refine congrArg (_ ++ ·) (List.ext_getElem (by simp [flashWrites]) fun i _ _ => ?_)
  simp [flashWrites, Nat.add_comm i, Nat.add_assoc]

/-! ## Writes -/

theorem kept_succ : nv.kept (n + 1) = nv.kept n ++ [nv.flash n] := by
  rw [Nv.kept, List.range_succ, List.map_append, Nv.kept]
  rfl

theorem kept_congr {nv' : Nv} (h : ∀ k < n, nv'.flash k = nv.flash k) : nv'.kept n = nv.kept n :=
  List.map_congr_left fun k hk => h k (List.mem_range.1 hk)

theorem kept_flashWrites (nv : Nv) :
    ((flashWrites start bytes).foldl Nv.write nv).kept (start + bytes.length) = nv.kept start ++ bytes := by
  induction bytes generalizing start nv with
  | nil => simp [flashWrites]
  | cons b bs ih =>
    have hone : (nv.write (.flash start b)).kept start = nv.kept start :=
      kept_congr fun k hk => if_neg (Nat.ne_of_lt hk)
    rw [flashWrites_cons, List.foldl_cons, List.length_cons, Nat.add_comm bs.length, ← Nat.add_assoc, ih, kept_succ, hone]
    simp [Nv.write]

/-- A write that leaves the breakpoint, the context of it, and the flash below an offset. -/
def Above (n : ℕ) : Write → Prop
  | .curMd5 _ => True
  | .flash address _ => n ≤ address
  | .saveState _ _ | .updateBreakpoint _ => False

theorem above_flashWrites {w : Write} (h : w ∈ flashWrites start bytes) (hn : n ≤ start) : Above n w := by
  obtain ⟨i, hi, rfl⟩ := List.mem_mapIdx.1 h
  exact Nat.le_trans hn (Nat.le_add_right _ _)

theorem foldl_above (nv : Nv) (h : ∀ w ∈ ws, Above n w) :
    (ws.foldl Nv.write nv).breakpoint = nv.breakpoint ∧ (ws.foldl Nv.write nv).md5Ctx = nv.md5Ctx ∧
      (ws.foldl Nv.write nv).kept n = nv.kept n := by
  induction ws generalizing nv with
  | nil => exact ⟨rfl, rfl, rfl⟩
  | cons w ws ih =>
    obtain ⟨hb, hc, hk⟩ := ih (nv.write w) fun w' hw => h w' (List.mem_cons_of_mem w hw)
    rw [List.foldl_cons, hb, hc, hk]
    have hw := h w List.mem_cons_self
    cases w with
    | curMd5 md5 => exact ⟨rfl, rfl, rfl⟩
    | flash address byte => exact ⟨rfl, rfl, kept_congr fun k hk => if_neg (Nat.ne_of_lt (Nat.lt_of_lt_of_le hk hw))⟩
    | saveState breakpoint ctx => exact hw.elim
    | updateBreakpoint offset => exact hw.elim

/-! ## The receive loop -/

/-- The context has hashed the bytes kept below the offset and those written from it. -/
def Synced (base : List UInt8) (t : Task) : Prop := Hashes t.gCtx (base ++ t.written)

/-- Bytes go to the context and to the flash alike. -/
structure Fed (base : List UInt8) (t t' : Task) : Prop where
  offset : t'.offset = t.offset
  grown : ∃ more, t'.written = t.written ++ more ∧
    t'.writes = t.writes ++ flashWrites (t.offset + t.written.length) more
  synced : Synced base t → Synced base t'

theorem Fed.refl : Fed base t t := ⟨rfl, ⟨[], by simp [flashWrites]⟩, id⟩

theorem Fed.func (h : Fed base (t.func bytes) t') : Fed base t t' := by
  obtain ⟨more, hw, hws⟩ := h.grown
  refine ⟨h.offset, ⟨bytes ++ more, ?_, ?_⟩, fun hs => h.synced ?_⟩
  · rw [hw]
    exact List.append_assoc ..
  · rw [hws, flashWrites_append, ← List.append_assoc]
    congr 2
    simp [Task.func, Nat.add_assoc]
  · have := Hashes.update hs bytes
    rwa [List.append_assoc] at this

theorem recvLoop_fed {rs : List Recv} (hsize : l.size = t.written.length)
    (hfirst : l.headerFound = false → t.written = []) :
    Fed base t (recvLoop t l rs).1 ∧ (recvLoop t l rs).2.1.size = (recvLoop t l rs).1.written.length := by
  induction rs generalizing t l with
  | nil => exact ⟨.refl, hsize⟩
  | cons r rs ih =>
    cases r with
    | fail eintr conn =>
      rw [recvLoop]
      split_ifs
      · exact ⟨.refl, hsize⟩
      · exact ih hsize hfirst
    | data bytes cancelled =>
      have hnext : ∀ (p : List UInt8) (l₁ : Loop), l₁.size = t.written.length + p.length → l₁.headerFound = true →
          Fed base t (recvLoop (t.func p) l₁ rs).1 ∧
            (recvLoop (t.func p) l₁ rs).2.1.size = (recvLoop (t.func p) l₁ rs).1.written.length := by
        intro p l₁ hs hf
        have hrec := ih (t := t.func p) (l := l₁) (by simp [Task.func, hs]) (by rw [hf]; nofun)
        exact ⟨.func hrec.1, hrec.2⟩
      have hfunc : ∀ p : List UInt8, Fed base t (t.func p) := fun _ => .func .refl
      rw [recvLoop]
      dsimp only
      generalize bytes.take (OTA_BUFFER_MAX_SIZE - 1) = bs
      split_ifs with hempty hfound
      · exact ⟨.refl, hsize⟩
      · have hnil := hfirst (by simpa using hfound)
        split
        · exact ih hsize hfirst
        · split_ifs with hneg
          · exact ⟨.refl, hsize⟩
          · refine hnext _ _ ?_ rfl
            rw [hnil, List.length_take, List.length_drop, List.length_append]
            simp only [List.length_nil]
            omega
      · exact ⟨hfunc bs, by simp [Task.func, hsize]⟩
      · exact ⟨hfunc bs, by simp [Task.func, hsize]⟩
      · exact hnext bs _ (by simp [hsize]) (by simpa using hfound)

/-! ## Attempts -/

/-- The stored context has hashed the bytes kept below the breakpoint. -/
def Resumable (nv : Nv) : Prop :=
  nv.breakpoint.getD 0 = 0 ∨ ∃ ctx, nv.md5Ctx = some ctx ∧ Hashes ctx (nv.kept (nv.breakpoint.getD 0))

/-- The writes of an attempt: they leave what is kept, and the last one may be that of the
    breakpoint. -/
inductive Leaves (nv : Nv) : List Write → Prop
  | above {qs : List Write} (h : ∀ w ∈ qs, Above (nv.breakpoint.getD 0) w) : Leaves nv qs
  | finish {qs : List Write} (h : ∀ w ∈ qs, Above (nv.breakpoint.getD 0) w) : Leaves nv (qs ++ [.updateBreakpoint 0])
  | save {qs : List Write} {k : ℕ} {ctx : MD5_CTX} (h : ∀ w ∈ qs, Above (nv.breakpoint.getD 0) w)
      (hashes : Hashes ctx ((qs.foldl Nv.write nv).kept k)) : Leaves nv (qs ++ [.saveState k ctx])

theorem Resumable.above (h : Resumable nv) (hws : ∀ w ∈ ws, Above (nv.breakpoint.getD 0) w) :
    Resumable (ws.foldl Nv.write nv) := by
  obtain ⟨hb, hc, hk⟩ := foldl_above nv hws
  rw [Resumable, hb, hc, hk]
  exact h

theorem Leaves.foldl (h : Leaves nv ws) (hr : Resumable nv) : Resumable (ws.foldl Nv.write nv) := by
  cases h with
  | above h => exact hr.above h
  | finish h =>
    rw [List.foldl_append]
    exact .inl rfl
  | save h hashes =>
    rw [List.foldl_append]
    exact .inr ⟨_, rfl, hashes⟩

theorem Leaves.above_of_prefix (h : Leaves nv ws) (hn : n < ws.length) :
    ∀ w ∈ ws.take n, Above (nv.breakpoint.getD 0) w := by
  intro w hw
  cases h with
  | above h => exact h w (List.mem_of_mem_take hw)
  | finish h =>
    rw [List.length_append] at hn
    rw [List.take_append_of_le_length (Nat.le_of_lt_succ hn)] at hw
    exact h w (List.mem_of_mem_take hw)
  | save h hashes =>
    rw [List.length_append] at hn
    rw [List.take_append_of_le_length (Nat.le_of_lt_succ hn)] at hw
    exact h w (List.mem_of_mem_take hw)

theorem Leaves.left (h : Leaves nv ws) (hr : Resumable nv) {cut : Cut} (hcut : cut ≠ .inSaveState) :
    Resumable (nv.left ws cut) := by
  cases cut with
  | never => exact h.foldl hr
  | after n =>
    rw [Nv.left]
    by_cases hn : n < ws.length
    · exact hr.above (h.above_of_prefix hn)
    · rw [List.take_of_length_le (Nat.not_lt.1 hn)]
      exact h.foldl hr
  | inSaveState => exact absurd rfl hcut

theorem resume_synced (hr : Resumable nv) (hm : nv.breakpoint.getD 0 = 0 ∨ nv.md5.getD [] = a.md5) :
    (resume nv a t).1 = nv.breakpoint.getD 0 ∧ Hashes (resume nv a t).2.gCtx (nv.kept (nv.breakpoint.getD 0)) ∧
      (resume nv a t).2 = { t with gCtx := (resume nv a t).2.gCtx } := by
  rw [resume]
  by_cases h0 : nv.breakpoint.getD 0 = 0
  · rw [if_neg fun h => h.1 h0, h0]
    exact ⟨rfl, hashes_init _, rfl⟩
  · obtain ⟨ctx, hctx, hh⟩ := hr.resolve_left h0
    rw [if_pos ⟨h0, hm.resolve_left h0⟩, hctx]
    exact ⟨rfl, hh, rfl⟩

theorem download_spec (hsend : a.sends = true) (hh : Hashes t.gCtx (nv.kept (nv.breakpoint.getD 0)))
    (hoff : t.offset = nv.breakpoint.getD 0) (hw : t.written = []) (hws : t.writes = []) :
    Leaves nv (download a (nv.breakpoint.getD 0) t).1.writes ∧
      Hashes (download a (nv.breakpoint.getD 0) t).1.gCtx (image nv (download a (nv.breakpoint.getD 0) t).1) := by
  obtain ⟨hfed, hsize⟩ :
      Fed (nv.kept (nv.breakpoint.getD 0)) (t.write (.curMd5 a.md5)) (recvLoop (t.write (.curMd5 a.md5)) .start a.recvs).1 ∧
        (recvLoop (t.write (.curMd5 a.md5)) .start a.recvs).2.1.size =
          (recvLoop (t.write (.curMd5 a.md5)) .start a.recvs).1.written.length :=
    recvLoop_fed (by rw [Task.write, hw]; rfl) fun _ => hw
  have hsync := hfed.synced (by rw [Synced, Task.write, hw, List.append_nil]; exact hh)
  obtain ⟨more, hmore, hwrites⟩ := hfed.grown
  have hmore' : (recvLoop (t.write (.curMd5 a.md5)) .start a.recvs).1.written = more := by
    rw [hmore, Task.write, hw, List.nil_append]
  have hwrites' : (recvLoop (t.write (.curMd5 a.md5)) .start a.recvs).1.writes =
      .curMd5 a.md5 :: flashWrites (nv.breakpoint.getD 0) more := by
    rw [hwrites, Task.write, hws, hw, hoff]
    rfl
  have himage : image nv (recvLoop (t.write (.curMd5 a.md5)) .start a.recvs).1 =
      nv.kept (nv.breakpoint.getD 0) ++ more := by
    rw [image, hfed.offset, hmore', Task.write, hoff, Nv.kept]
  have habove : ∀ w ∈ Write.curMd5 a.md5 :: flashWrites (nv.breakpoint.getD 0) more,
      Above (nv.breakpoint.getD 0) w := by
    intro w hin
    rcases List.mem_cons.1 hin with rfl | hin
    · trivial
    · exact above_flashWrites hin (Nat.le_refl _)
  have hkept : ((Write.curMd5 a.md5 :: flashWrites (nv.breakpoint.getD 0) more).foldl Nv.write nv).kept
      (nv.breakpoint.getD 0 + more.length) = nv.kept (nv.breakpoint.getD 0) ++ more :=
    kept_flashWrites (nv.write (.curMd5 a.md5))
  rw [Synced, hmore'] at hsync
  have hoffset : ((recvLoop (t.write (.curMd5 a.md5)) .start a.recvs).2.1.size + nv.breakpoint.getD 0).toNat =
      nv.breakpoint.getD 0 + more.length := by
    rw [hsize, hmore']
    omega
  have hsave : Leaves nv ((recvLoop (t.write (.curMd5 a.md5)) .start a.recvs).1.writes ++
      [.saveState ((recvLoop (t.write (.curMd5 a.md5)) .start a.recvs).2.1.size + nv.breakpoint.getD 0).toNat
        (recvLoop (t.write (.curMd5 a.md5)) .start a.recvs).1.gCtx]) := by
    rw [hwrites', hoffset]
    exact .save habove (hkept ▸ hsync)
  rw [← himage] at hsync
  rw [download, hsend, if_neg (by nofun)]
  generalize recvLoop (t.write (.curMd5 a.md5)) .start a.recvs = r at *
  obtain ⟨t', l, e⟩ := r
  cases e with
  | failed => exact ⟨hsave, hsync⟩
  | cancelled => exact ⟨hsave, hsync⟩
  | closed =>
    refine ⟨?_, hsync⟩
    change Leaves nv (t'.writes ++ [.updateBreakpoint 0])
    rw [hwrites']
    exact .finish habove
  | fault =>
    refine ⟨?_, hsync⟩
    change Leaves nv t'.writes
    rw [hwrites']
    exact .above habove

theorem otaDownloadStart_task :
    (otaDownloadStart nv a).1 = (otaDownload nv a ⟨.zero, nv.breakpoint.getD 0, [], []⟩).1 := by
  rw [otaDownloadStart]
  split
  · rename_i h
    rw [h]
  · rename_i h
    rw [h]
    split_ifs <;> rfl

theorem not_finish {ret : ℤ} (h : (otaDownload nv a ⟨.zero, nv.breakpoint.getD 0, [], []⟩).2 = some ret) (hneg : ret ≤ 0) :
    (otaDownloadStart nv a).2 ≠ some .finish := by
  rw [otaDownloadStart]
  split
  · rename_i heq
    rw [heq] at h
    exact nomatch h
  · rename_i heq
    rw [heq] at h
    cases h
    rw [if_pos hneg]
    nofun

theorem resume_writes : (resume nv a t).2.writes = t.writes := by
  rw [resume]
  split_ifs <;> rfl

/-- **An attempt** that meets the condition leaves a breakpoint to go on from, and boots what it
    verified. -/
theorem attempt_spec (hr : Resumable nv) (hm : Meets nv a) :
    Leaves nv (otaDownloadStart nv a).1.writes ∧ Verified nv a := by
  rw [Verified, otaDownloadStart_task]
  by_cases hurl : a.url = false
  · have hdl : otaDownload nv a ⟨.zero, nv.breakpoint.getD 0, [], []⟩ =
        (⟨.zero, nv.breakpoint.getD 0, [], []⟩, some OTA_DOWNLOAD_URL_FAIL) := by
      rw [otaDownload, hurl]
      rfl
    exact ⟨hdl ▸ .above nofun, fun _ hfin => absurd hfin (not_finish (congrArg Prod.snd hdl) (by decide))⟩
  by_cases hcon : a.connects = false
  · have hdl : otaDownload nv a ⟨.zero, nv.breakpoint.getD 0, [], []⟩ =
        (⟨.zero, nv.breakpoint.getD 0, [], []⟩, some OTA_DOWNLOAD_SOCKET_FAIL) := by
      rw [otaDownload, if_neg (by simpa using hurl), hcon]
      rfl
    exact ⟨hdl ▸ .above nofun, fun _ hfin => absurd hfin (not_finish (congrArg Prod.snd hdl) (by decide))⟩
  have hdl : otaDownload nv a ⟨.zero, nv.breakpoint.getD 0, [], []⟩ =
      download a (resume nv a ⟨.zero, nv.breakpoint.getD 0, [], []⟩).1
        (resume nv a ⟨.zero, nv.breakpoint.getD 0, [], []⟩).2 := by
    rw [otaDownload, if_neg (by simpa using hurl), if_neg (by simpa using hcon)]
  by_cases hsend : a.sends = false
  · have hfail : otaDownload nv a ⟨.zero, nv.breakpoint.getD 0, [], []⟩ =
        ((resume nv a ⟨.zero, nv.breakpoint.getD 0, [], []⟩).2.write (.curMd5 a.md5), some OTA_DOWNLOAD_SEND_FAIL) := by
      rw [hdl, download, hsend]
      rfl
    refine ⟨hfail ▸ .above fun w hw => ?_,
      fun _ hfin => absurd hfin (not_finish (congrArg Prod.snd hfail) (by decide))⟩
    change w ∈ (resume nv a _).2.writes ++ [.curMd5 a.md5] at hw
    rw [resume_writes, List.nil_append, List.mem_singleton] at hw
    rw [hw]
    trivial
  · have hmd5 : nv.breakpoint.getD 0 = 0 ∨ nv.md5.getD [] = a.md5 := by
      rcases hm.2 with h | h | h | h | h
      · exact .inl h
      · exact .inr h
      · exact absurd h hurl
      · exact absurd h hcon
      · exact absurd h hsend
    obtain ⟨hbp, hh, htask⟩ := resume_synced (t := ⟨.zero, nv.breakpoint.getD 0, [], []⟩) hr hmd5
    rw [hdl, hbp]
    obtain ⟨hleaves, hashes⟩ := download_spec (t := (resume nv a ⟨.zero, nv.breakpoint.getD 0, [], []⟩).2)
      (by simpa using hsend) hh (by rw [htask]) (by rw [htask]) (by rw [htask])
    exact ⟨hleaves, fun _ _ => hashes⟩

theorem Resumable.attempt (hr : Resumable nv) (hm : Meets nv a) : Resumable (nv.attempt a) :=
  (attempt_spec hr hm).1.left hr hm.1

/-- **Updates**: along a history in which every attempt that receives something goes on with the
    md5 of the stored breakpoint, and no power cut falls between the two keys of it, every image
    that is booted is the one whose MD5 was compared. -/
theorem ota_image_verified (flash : ℕ → UInt8) (as : List Attempt)
    (hmeets : ∀ bs a cs, as = bs ++ a :: cs → Meets (bs.foldl Nv.attempt (.fresh flash)) a) :
    ∀ bs a cs, as = bs ++ a :: cs → Verified (bs.foldl Nv.attempt (.fresh flash)) a := by
  have hrun := Lib.foldl_keeps (J := Resumable) (fun _ _ hr hm => hr.attempt hm) (.inl rfl) hmeets
  intro bs a cs heq
  exact (attempt_spec (hrun bs _ heq) (hmeets bs a cs heq)).2

/-- The image of one byte, with its md5. -/
def another : Attempt :=
  { offered := [0x34, 0x41, 0x38, 0x41, 0x30, 0x38, 0x46, 0x30, 0x39, 0x44, 0x33, 0x37, 0x42, 0x37, 0x33, 0x37,
      0x39, 0x35, 0x36, 0x34, 0x39, 0x30, 0x33, 0x38, 0x34, 0x30, 0x38, 0x42, 0x35, 0x46, 0x33, 0x33]
    url := true, connects := true, sends := true, recvs := [.data (headerEnd ++ [0x63]) false], cut := .never }

theorem ota_image_verified_first :
    (otaDownloadStart (.fresh fun _ => 0xff) another).2 = some .finish ∧ Verified (.fresh fun _ => 0xff) another := by
  refine ⟨by decide +kernel, ota_image_verified (fun _ => 0xff) [another] ?_ [] another [] rfl⟩
  rintro (_ | ⟨b, bs⟩) a cs heq
  · obtain ⟨rfl, -⟩ := List.cons.inj heq
    exact ⟨nofun, .inl rfl⟩
  · simp at heq

/-! ## Another image behind a breakpoint -/

/-- A byte of an image comes, and the connection fails. -/
def interrupted : Attempt := ⟨[], true, true, true, [.data (headerEnd ++ [0x61]) false, .fail false false], .never⟩

theorem ota_image_not_verified :
    ¬ ∀ flash as bs a cs, as = bs ++ a :: cs → Verified (bs.foldl Nv.attempt (.fresh flash)) a := by
  intro h
  have hv := h (fun _ => 0xff) [interrupted, another] [interrupted] another [] rfl rfl (by decide +kernel)
  have hcount := Hashes.count hv
  have hlen : (image ([interrupted].foldl Nv.attempt (.fresh fun _ => 0xff))
      (otaDownloadStart ([interrupted].foldl Nv.attempt (.fresh fun _ => 0xff)) another).1).length = 2 := by
    decide +kernel
  rw [hlen] at hcount
  exact absurd hcount (by decide +kernel)

end Fota
