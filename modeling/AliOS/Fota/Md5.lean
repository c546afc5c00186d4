/-
  MD5 (`utility/digest_algorithm/md5.c`): the digest is that of the message that
  the pieces make (`md5Final_eq`).
-/
import AliOS.Lib.Blocks
import Mathlib.Algebra.Group.Nat.Defs
import Mathlib.Data.Nat.Notation
import Mathlib.Tactic.SplitIfs

namespace Fota

open Lib

/-- The words A, B, C and D of `state`. -/
structure Words where
  a : UInt32
  b : UInt32
  c : UInt32
  d : UInt32
  deriving DecidableEq

structure MD5_CTX where
  state : Words
  count₀ : UInt32
  count₁ : UInt32
  buffer : List UInt8
  deriving DecidableEq

/-- What the memory of a context holds before anything is written to it. -/
def MD5_CTX.zero : MD5_CTX := ⟨⟨0, 0, 0, 0⟩, 0, 0, List.replicate 64 0⟩

def rotateLeft (x n : UInt32) : UInt32 := (x <<< n) ||| (x >>> (32 - n))

/-- `F`, `G`, `H` and `I` -/
def md5F (x y z : UInt32) : UInt32 := (x &&& y) ||| (~~~x &&& z)
def md5G (x y z : UInt32) : UInt32 := (x &&& z) ||| (y &&& ~~~z)
def md5H (x y z : UInt32) : UInt32 := x ^^^ y ^^^ z
def md5I (x y z : UInt32) : UInt32 := y ^^^ (x ||| ~~~z)

/-- The steps of a round: the word of the block, the shift and the constant of each. -/
def round₁ : List (ℕ × UInt32 × UInt32) :=
  [(0, 7, 0xd76aa478), (1, 12, 0xe8c7b756), (2, 17, 0x242070db), (3, 22, 0xc1bdceee),
   (4, 7, 0xf57c0faf), (5, 12, 0x4787c62a), (6, 17, 0xa8304613), (7, 22, 0xfd469501),
   (8, 7, 0x698098d8), (9, 12, 0x8b44f7af), (10, 17, 0xffff5bb1), (11, 22, 0x895cd7be),
   (12, 7, 0x6b901122), (13, 12, 0xfd987193), (14, 17, 0xa679438e), (15, 22, 0x49b40821)]

def round₂ : List (ℕ × UInt32 × UInt32) :=
  [(1, 5, 0xf61e2562), (6, 9, 0xc040b340), (11, 14, 0x265e5a51), (0, 20, 0xe9b6c7aa),
   (5, 5, 0xd62f105d), (10, 9, 0x2441453), (15, 14, 0xd8a1e681), (4, 20, 0xe7d3fbc8),
   (9, 5, 0x21e1cde6), (14, 9, 0xc33707d6), (3, 14, 0xf4d50d87), (8, 20, 0x455a14ed),
   (13, 5, 0xa9e3e905), (2, 9, 0xfcefa3f8), (7, 14, 0x676f02d9), (12, 20, 0x8d2a4c8a)]

def round₃ : List (ℕ × UInt32 × UInt32) :=
  [(5, 4, 0xfffa3942), (8, 11, 0x8771f681), (11, 16, 0x6d9d6122), (14, 23, 0xfde5380c),
   (1, 4, 0xa4beea44), (4, 11, 0x4bdecfa9), (7, 16, 0xf6bb4b60), (10, 23, 0xbebfbc70),
   (13, 4, 0x289b7ec6), (0, 11, 0xeaa127fa), (3, 16, 0xd4ef3085), (6, 23, 0x4881d05),
   (9, 4, 0xd9d4d039), (12, 11, 0xe6db99e5), (15, 16, 0x1fa27cf8), (2, 23, 0xc4ac5665)]

def round₄ : List (ℕ × UInt32 × UInt32) :=
  [(0, 6, 0xf4292244), (7, 10, 0x432aff97), (14, 15, 0xab9423a7), (5, 21, 0xfc93a039),
   (12, 6, 0x655b59c3), (3, 10, 0x8f0ccc92), (10, 15, 0xffeff47d), (1, 21, 0x85845dd1),
   (8, 6, 0x6fa87e4f), (15, 10, 0xfe2ce6e0), (6, 15, 0xa3014314), (13, 21, 0x4e0811a1),
   (4, 6, 0xf7537e82), (11, 10, 0xbd3af235), (2, 15, 0x2ad7d2bb), (9, 21, 0xeb86d391)]

/-- `FF`, `GG`, `HH` and `II`; the next step has the words turned by one. -/
def md5Step (f : UInt32 → UInt32 → UInt32 → UInt32) (x : List UInt32) (w : Words) (s : ℕ × UInt32 × UInt32) : Words :=
  ⟨w.d, w.b + rotateLeft (w.a + f w.b w.c w.d + x.getD s.1 0 + s.2.2) s.2.1, w.b, w.c⟩

/-- `Decode`: little-endian words. -/
def decode : List UInt8 → List UInt32
  | b₀ :: b₁ :: b₂ :: b₃ :: bs =>
    (b₀.toUInt32 ||| (b₁.toUInt32 <<< 8) ||| (b₂.toUInt32 <<< 16) ||| (b₃.toUInt32 <<< 24)) :: decode bs
  | _ => []

def encode (words : List UInt32) : List UInt8 :=
  words.flatMap fun (w : UInt32) => [w.toUInt8, (w >>> 8).toUInt8, (w >>> 16).toUInt8, (w >>> 24).toUInt8]

def md5Transform (w : Words) (block : List UInt8) : Words :=
  let x := decode block
  let v := round₁.foldl (md5Step md5F x) w
  let v := round₂.foldl (md5Step md5G x) v
  let v := round₃.foldl (md5Step md5H x) v
  let v := round₄.foldl (md5Step md5I x) v
  ⟨w.a + v.a, w.b + v.b, w.c + v.c, w.d + v.d⟩

/-- `MD5_Init`; the buffer is left. -/
def md5Init (ctx : MD5_CTX) : MD5_CTX :=
  { ctx with state := ⟨0x67452301, 0xefcdab89, 0x98badcfe, 0x10325476⟩, count₀ := 0, count₁ := 0 }

/-- The loop of `MD5_Update` over the whole blocks of the message. -/
def md5Blocks (w : Words) (msg : List UInt8) : ℕ → Words × List UInt8
  | 0 => (w, msg)
  | n + 1 => md5Blocks (md5Transform w (msg.take 64)) (msg.drop 64) n

/-- `memcpy` to `&buffer[x]` -/
def copyAt (buffer : List UInt8) (x : ℕ) (bytes : List UInt8) : List UInt8 :=
  buffer.take x ++ bytes ++ buffer.drop (x + bytes.length)

def md5Update (ctx : MD5_CTX) (msg : List UInt8) : MD5_CTX :=
  let len : UInt32 := .ofNat msg.length
  let x := ((ctx.count₀ >>> 3) &&& 0x3f).toNat
  let count₀ := ctx.count₀ + (len <<< 3)
  let count₁ := (if count₀ < len <<< 3 then ctx.count₁ + 1 else ctx.count₁) + (len >>> 29)
  let partLen := 64 - x
  if partLen ≤ msg.length then
    let buffer := copyAt ctx.buffer x (msg.take partLen)
    let rest := msg.drop partLen
    let (state, rest) := md5Blocks (md5Transform ctx.state buffer) rest (rest.length / 64)
    ⟨state, count₀, count₁, copyAt buffer 0 rest⟩
  else ⟨ctx.state, count₀, count₁, copyAt ctx.buffer x msg⟩

def padding : List UInt8 := 0x80 :: List.replicate 63 0

def md5Final (ctx : MD5_CTX) : List UInt8 :=
  let bits := encode [ctx.count₀, ctx.count₁]
  let x := ((ctx.count₀ >>> 3) &&& 0x3f).toNat
  let padLen := if x < 56 then 56 - x else 120 - x
  let ctx := md5Update (md5Update ctx (padding.take padLen)) bits
  encode [ctx.state.a, ctx.state.b, ctx.state.c, ctx.state.d]

/-- A context that was set up by `MD5_Init` and got these bytes, in whatever pieces. -/
def Hashes (ctx : MD5_CTX) (bytes : List UInt8) : Prop :=
  ∃ ctx₀ : MD5_CTX, ∃ pieces : List (List UInt8), pieces.flatten = bytes ∧ ctx = pieces.foldl md5Update (md5Init ctx₀)

theorem hashes_init (ctx : MD5_CTX) : Hashes (md5Init ctx) [] := ⟨ctx, [], rfl, rfl⟩

theorem Hashes.update {ctx : MD5_CTX} {bytes : List UInt8} (h : Hashes ctx bytes) (msg : List UInt8) :
    Hashes (md5Update ctx msg) (bytes ++ msg) := by
  obtain ⟨ctx0, pieces, rfl, rfl⟩ := h
  refine ⟨ctx0, pieces ++ [msg], by simp, ?_⟩
  rw [List.foldl_append]
  rfl

theorem md5Update_count (ctx : MD5_CTX) (msg : List UInt8) :
    (md5Update ctx msg).count₀ = ctx.count₀ + (UInt32.ofNat msg.length <<< 3) := by
  unfold md5Update
  dsimp only
  split_ifs <;> rfl

theorem Hashes.count {ctx : MD5_CTX} {bytes : List UInt8} (h : Hashes ctx bytes) :
    ctx.count₀ = .ofNat (8 * bytes.length) := by
  obtain ⟨ctx0, pieces, rfl, rfl⟩ := h
  have hfold : ∀ (c : MD5_CTX) n, c.count₀ = .ofNat (8 * n) →
      (pieces.foldl md5Update c).count₀ = .ofNat (8 * (n + pieces.flatten.length)) := by
    induction pieces with
    | nil => exact fun c n hc => hc
    | cons p ps ih =>
      intro c n hc
      rw [List.foldl_cons, List.flatten_cons, List.length_append, ← Nat.add_assoc]
      refine ih _ _ ?_
      rw [md5Update_count, hc]
      refine UInt32.toNat_inj.1 ?_
      rw [UInt32.toNat_add, UInt32.toNat_shiftLeft]
      simp only [UInt32.toNat_ofNat']
      change (8 * n % 2 ^ 32 + (p.length % 2 ^ 32) <<< 3 % 2 ^ 32) % 2 ^ 32 = _
      rw [Nat.shiftLeft_eq]
      omega
  have := hfold (md5Init ctx0) 0 rfl
  rwa [Nat.zero_add] at this

example : md5Final (md5Update (md5Init .zero) [0x61, 0x62, 0x63]) =
    [0x90, 0x01, 0x50, 0x98, 0x3c, 0xd2, 0x4f, 0xb0, 0xd6, 0x96, 0x3f, 0x7d, 0x28, 0xe1, 0x7f, 0x72] := by
  decide +kernel

/-! ## The digest -/

theorem md5Update_count₁ (ctx : MD5_CTX) (msg : List UInt8) :
    (md5Update ctx msg).count₁ = (if (md5Update ctx msg).count₀ < UInt32.ofNat msg.length <<< 3 then ctx.count₁ + 1
      else ctx.count₁) + (UInt32.ofNat msg.length >>> 29) := by
  rw [md5Update_count]
  unfold md5Update
  dsimp only
  split_ifs <;> rfl

theorem md5Update_bits {ctx : MD5_CTX} {msg : List UInt8} (hmsg : msg.length < 2 ^ 32) :
    (md5Update ctx msg).count₀.toNat + 2 ^ 32 * (md5Update ctx msg).count₁.toNat =
      (ctx.count₀.toNat + 2 ^ 32 * ctx.count₁.toNat + 8 * msg.length) % 2 ^ 64 := by
  have hlen : (UInt32.ofNat msg.length).toNat = msg.length := by
    rw [UInt32.toNat_ofNat']
    omega
  have hshl : (UInt32.ofNat msg.length <<< 3).toNat = 8 * msg.length % 2 ^ 32 := by
    rw [UInt32.toNat_shiftLeft, hlen]
    change msg.length <<< 3 % _ = _
    rw [Nat.shiftLeft_eq, Nat.mul_comm]
  have hshr : (UInt32.ofNat msg.length >>> 29).toNat = msg.length / 2 ^ 29 := by
    rw [UInt32.toNat_shiftRight, hlen]
    exact Nat.shiftRight_eq_div_pow ..
  have hlow := ctx.count₀.toNat_lt
  have hhigh := ctx.count₁.toNat_lt
  rw [md5Update_count₁, md5Update_count]
  -- the low word wrapped if it is less than what was added to it
  split_ifs with hcarry
  all_goals
    rw [UInt32.lt_iff_toNat_lt, UInt32.toNat_add, hshl] at hcarry
    simp only [UInt32.toNat_add, hshl, hshr, UInt32.toNat_one]
    omega

theorem md5Blocks_eq (w : Words) (msg : List UInt8) (n : ℕ) : md5Blocks w msg n = takeBlocks md5Transform 64 w msg n := by
  induction n generalizing w msg with
  | zero => rfl
  | succ n ih => exact ih _ _

theorem copyAt_length {buffer bytes : List UInt8} {x : ℕ} (h : x + bytes.length ≤ buffer.length) :
    (copyAt buffer x bytes).length = buffer.length := by
  simp only [copyAt, List.length_append, List.length_take, List.length_drop]
  omega

theorem copyAt_take {buffer bytes : List UInt8} {x n : ℕ} (h : x ≤ buffer.length) (hn : n = x + bytes.length) :
    (copyAt buffer x bytes).take n = buffer.take x ++ bytes := by
  have hlen : n = (buffer.take x ++ bytes).length := by
    rw [hn, List.length_append, List.length_take, Nat.min_eq_left h]
  rw [copyAt, hlen, List.take_left]

/-- The words that `MD5_Init` writes. -/
def initWords : Words := ⟨0x67452301, 0xefcdab89, 0x98badcfe, 0x10325476⟩

/-- What goes behind a message of `n` bytes: a one bit, zeros up to 56 bytes of a block, and the number of bits. -/
def md5Padding (n : ℕ) : List UInt8 :=
  0x80 :: List.replicate ((119 - n % 64) % 64) 0 ++ encode [.ofNat (8 * n), .ofNat (8 * n / 2 ^ 32)]

/-- The MD5 of a message: its words behind the blocks of the padded message. -/
def IsMd5 (msg digest : List UInt8) : Prop :=
  ∃ w, Absorbs md5Transform 64 initWords (msg ++ md5Padding msg.length) w [] ∧ digest = encode [w.a, w.b, w.c, w.d]

/-- The context got these bytes: what is behind the last whole block is at the start of the buffer. -/
structure Buffers (ctx : MD5_CTX) (bytes : List UInt8) : Prop where
  absorbs : Absorbs md5Transform 64 initWords bytes ctx.state (ctx.buffer.take (bytes.length % 64))
  buffer : ctx.buffer.length = 64
  count : ctx.count₀.toNat + 2 ^ 32 * ctx.count₁.toNat = 8 * bytes.length % 2 ^ 64

namespace Buffers

variable {ctx : MD5_CTX} {bytes msg : List UInt8}

theorem index (h : Buffers ctx bytes) : ((ctx.count₀ >>> 3) &&& 0x3f).toNat = bytes.length % 64 := by
  have hcount := h.count
  rw [UInt32.toNat_and, UInt32.toNat_shiftRight]
  change (ctx.count₀.toNat >>> 3) &&& (2 ^ 6 - 1) = _
  rw [Nat.and_two_pow_sub_one_eq_mod, Nat.shiftRight_eq_div_pow]
  omega

theorem absorbs_update (h : Buffers ctx bytes) (msg : List UInt8) :
    Absorbs md5Transform 64 initWords (bytes ++ msg) (md5Update ctx msg).state
      ((md5Update ctx msg).buffer.take ((bytes ++ msg).length % 64)) ∧ (md5Update ctx msg).buffer.length = 64 := by
  have hsize := h.buffer
  have hlt : bytes.length % 64 < 64 := Nat.mod_lt _ (by decide)
  unfold md5Update
  dsimp only
  rw [h.index]
  generalize hx : bytes.length % 64 = x at hlt
  have hkept : (ctx.buffer.take x).length = x := by rw [List.length_take, hsize, Nat.min_eq_left (Nat.le_of_lt hlt)]
  have habs := h.absorbs
  rw [hx] at habs
  by_cases hfull : 64 - x ≤ msg.length
  · rw [if_pos hfull]
    have hfill : copyAt ctx.buffer x (msg.take (64 - x)) = ctx.buffer.take x ++ msg.take (64 - x) := by
      rw [copyAt, List.length_take, Nat.min_eq_left hfull, List.drop_of_length_le (by omega), List.append_nil]
    have hblk : (ctx.buffer.take x ++ msg.take (64 - x)).length = 64 := by
      rw [List.length_append, hkept, List.length_take, Nat.min_eq_left hfull]
      omega
    have hrun := habs.append (by decide) (by rw [hkept]) hfull
    have hrest := hrun.length
    rw [hfill, md5Blocks_eq]
    have hle := Nat.mod_lt (bytes ++ msg).length (by decide : 0 < 64)
    refine ⟨?_, (copyAt_length (by omega)).trans hblk⟩
    rw [copyAt_take (Nat.zero_le _) (by rw [Nat.zero_add, ← hrest]), List.take_zero, List.nil_append]
    exact hrun
  · rw [if_neg hfull]
    have hsum : (bytes ++ msg).length % 64 = x + msg.length := by
      rw [List.length_append]
      omega
    refine ⟨?_, (copyAt_length (by omega)).trans hsize⟩
    rw [hsum, copyAt_take (by omega) rfl]
    exact habs.keep (by omega)

theorem update (h : Buffers ctx bytes) (hmsg : msg.length < 2 ^ 32) : Buffers (md5Update ctx msg) (bytes ++ msg) := by
  obtain ⟨habs, hsize⟩ := h.absorbs_update msg
  refine ⟨habs, hsize, ?_⟩
  rw [md5Update_bits hmsg, h.count, List.length_append]
  omega

theorem length_encode (m n : UInt32) : (encode [m, n]).length < 2 ^ 32 := by
  change 8 < 2 ^ 32
  decide

theorem final (h : Buffers ctx bytes) : IsMd5 bytes (md5Final ctx) := by
  have hcount := h.count
  have hlt : bytes.length % 64 < 64 := Nat.mod_lt _ (by decide)
  have hpad : padding.take (if bytes.length % 64 < 56 then 56 - bytes.length % 64 else 120 - bytes.length % 64) =
      0x80 :: List.replicate ((119 - bytes.length % 64) % 64) 0 := by
    have hk : (if bytes.length % 64 < 56 then 56 - bytes.length % 64 else 120 - bytes.length % 64) =
        (119 - bytes.length % 64) % 64 + 1 := by
      split_ifs <;> omega
    rw [hk, padding, List.take_succ_cons, List.take_replicate, Nat.min_eq_left (by omega)]
  have hbits : [ctx.count₀, ctx.count₁] = [.ofNat (8 * bytes.length), .ofNat (8 * bytes.length / 2 ^ 32)] := by
    have hlow := ctx.count₀.toNat_lt
    have hhigh := ctx.count₁.toNat_lt
    simp only [List.cons.injEq, ← UInt32.toNat_inj, UInt32.toNat_ofNat', and_true]
    omega
  have hzeros : (0x80 :: List.replicate ((119 - bytes.length % 64) % 64) (0 : UInt8)).length < 2 ^ 32 := by
    rw [List.length_cons, List.length_replicate]
    omega
  have hlast := (h.update hzeros).update (length_encode (.ofNat (8 * bytes.length)) (.ofNat (8 * bytes.length / 2 ^ 32)))
  rw [List.append_assoc] at hlast
  have hwhole : (bytes ++ md5Padding bytes.length).length % 64 = 0 := by
    rw [List.length_append, md5Padding, List.length_append, List.length_cons, List.length_replicate]
    change (_ + (_ + 8)) % 64 = 0
    omega
  have habs := hlast.absorbs
  change Absorbs _ _ _ (bytes ++ md5Padding bytes.length) _ (List.take ((bytes ++ md5Padding bytes.length).length % 64) _) at habs
  rw [hwhole, List.take_zero] at habs
  refine ⟨_, habs, ?_⟩
  unfold md5Final
  dsimp only
  rw [h.index, hpad, hbits]

end Buffers

/-- **The pieces of a message** make no difference: what `MD5_Final` returns is the MD5 of all that was got since
    `MD5_Init`, whatever was in the memory of the context. -/
theorem md5Final_eq {ctx : MD5_CTX} (hctx : ctx.buffer.length = 64) (pieces : List (List UInt8))
    (hpieces : ∀ p ∈ pieces, p.length + 63 < 2 ^ 31) :
    IsMd5 pieces.flatten (md5Final (pieces.foldl md5Update (md5Init ctx))) := by
  have hrun : ∀ {c : MD5_CTX} {bytes}, Buffers c bytes → Buffers (pieces.foldl md5Update c) (bytes ++ pieces.flatten) := by
    induction pieces with
    | nil => exact fun h => by rwa [List.flatten_nil, List.append_nil]
    | cons p ps ih =>
      intro c bytes h
      rw [List.flatten_cons, ← List.append_assoc]
      exact ih (fun q hq => hpieces q (List.mem_cons_of_mem p hq)) (h.update (by
        have := hpieces p List.mem_cons_self
        omega))
  have hinit : Buffers (md5Init ctx) [] := ⟨.nil (Nat.succ_pos 63), hctx, rfl⟩
  exact (hrun hinit).final

theorem md5Final_eq_abc : IsMd5 [0x61, 0x62, 0x63] (md5Final ([[0x61], [], [0x62, 0x63]].foldl md5Update (md5Init .zero))) :=
  md5Final_eq (List.length_replicate ..) [[0x61], [], [0x62, 0x63]] (by decide)

end Fota
