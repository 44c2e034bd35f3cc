import PulseVM.Lib.Encoding

/-!
The SHA-256 digest of a byte string. Words are natural numbers below 2^32, so that a
digest can be evaluated inside a proof.
-/

namespace PulseVM.Lib.Sha256
open Encoding

def add32 (a b : Nat) : Nat := (a + b) % 2 ^ 32

def rotr (n x : Nat) : Nat := (x >>> n) ||| ((x <<< (32 - n)) % 2 ^ 32)

def smallSigma0 (x : Nat) : Nat := rotr 7 x ^^^ rotr 18 x ^^^ (x >>> 3)

def smallSigma1 (x : Nat) : Nat := rotr 17 x ^^^ rotr 19 x ^^^ (x >>> 10)

def bigSigma0 (x : Nat) : Nat := rotr 2 x ^^^ rotr 13 x ^^^ rotr 22 x

def bigSigma1 (x : Nat) : Nat := rotr 6 x ^^^ rotr 11 x ^^^ rotr 25 x

def choose (x y z : Nat) : Nat := (x &&& y) ^^^ ((2 ^ 32 - 1 - x) &&& z)

def majority (x y z : Nat) : Nat := (x &&& y) ^^^ (x &&& z) ^^^ (y &&& z)

/-- Fractional parts of the cube roots of the first 64 primes. -/
def roundConstants : List Nat :=
  [0x428a2f98, 0x71374491, 0xb5c0fbcf, 0xe9b5dba5, 0x3956c25b, 0x59f111f1, 0x923f82a4, 0xab1c5ed5,
   0xd807aa98, 0x12835b01, 0x243185be, 0x550c7dc3, 0x72be5d74, 0x80deb1fe, 0x9bdc06a7, 0xc19bf174,
   0xe49b69c1, 0xefbe4786, 0x0fc19dc6, 0x240ca1cc, 0x2de92c6f, 0x4a7484aa, 0x5cb0a9dc, 0x76f988da,
   0x983e5152, 0xa831c66d, 0xb00327c8, 0xbf597fc7, 0xc6e00bf3, 0xd5a79147, 0x06ca6351, 0x14292967,
   0x27b70a85, 0x2e1b2138, 0x4d2c6dfc, 0x53380d13, 0x650a7354, 0x766a0abb, 0x81c2c92e, 0x92722c85,
   0xa2bfe8a1, 0xa81a664b, 0xc24b8b70, 0xc76c51a3, 0xd192e819, 0xd6990624, 0xf40e3585, 0x106aa070,
   0x19a4c116, 0x1e376c08, 0x2748774c, 0x34b0bcb5, 0x391c0cb3, 0x4ed8aa4a, 0x5b9cca4f, 0x682e6ff3,
   0x748f82ee, 0x78a5636f, 0x84c87814, 0x8cc70208, 0x90befffa, 0xa4506ceb, 0xbef9a3f7, 0xc67178f2]

structure Hash where
  a : Nat
  b : Nat
  c : Nat
  d : Nat
  e : Nat
  f : Nat
  g : Nat
  h : Nat
  deriving DecidableEq, Repr

/-- Fractional parts of the square roots of the first eight primes. -/
def Hash.initial : Hash :=
  ⟨0x6a09e667, 0xbb67ae85, 0x3c6ef372, 0xa54ff53a, 0x510e527f, 0x9b05688c, 0x1f83d9ab, 0x5be0cd19⟩

def Hash.round (s : Hash) (constant word : Nat) : Hash :=
  let first := add32 s.h (add32 (bigSigma1 s.e) (add32 (choose s.e s.f s.g) (add32 constant word)))
  let second := add32 (bigSigma0 s.a) (majority s.a s.b s.c)
  ⟨add32 first second, s.a, s.b, s.c, add32 s.d first, s.e, s.f, s.g⟩

def Hash.merge (s t : Hash) : Hash :=
  ⟨add32 s.a t.a, add32 s.b t.b, add32 s.c t.c, add32 s.d t.d, add32 s.e t.e, add32 s.f t.f,
    add32 s.g t.g, add32 s.h t.h⟩

/-- The next words of the message schedule, from the sixteen before them. -/
def schedule : Nat → List Nat → List Nat
  | 0, _ => []
  | n + 1, window =>
    let next := add32 (smallSigma1 (window.getD 14 0)) (add32 (window.getD 9 0)
      (add32 (smallSigma0 (window.getD 1 0)) (window.getD 0 0)))
    window.getD 0 0 :: schedule n (window.drop 1 ++ [next])

def beNat (bytes : Bytes) : Nat := bytes.foldl (fun n b => 256 * n + b.toNat) 0

def beBytes (width n : Nat) : Bytes := (leBytes width n).reverse

/-- The first `n` words of a byte string. -/
def words : Nat → Bytes → List Nat
  | 0, _ => []
  | n + 1, bytes => beNat (bytes.take 4) :: words n (bytes.drop 4)

def Hash.compress (s : Hash) (block : Bytes) : Hash :=
  s.merge ((List.zip roundConstants (schedule 64 (words 16 block))).foldl
    (fun s kw => s.round kw.1 kw.2) s)

def pad (message : Bytes) : Bytes :=
  message ++ 0x80 :: (List.replicate ((119 - message.length % 64) % 64) 0 ++
    beBytes 8 (8 * message.length))

def compressAll : Nat → Bytes → Hash → Hash
  | 0, _, s => s
  | n + 1, bytes, s => compressAll n (bytes.drop 64) (s.compress (bytes.take 64))

def digest (message : Bytes) : Bytes :=
  let s := compressAll ((pad message).length / 64) (pad message) Hash.initial
  [s.a, s.b, s.c, s.d, s.e, s.f, s.g, s.h].flatMap (beBytes 4)

example : (digest [0x61, 0x62, 0x63]).take 8 = [0xba, 0x78, 0x16, 0xbf, 0x8f, 0x01, 0xcf, 0xea] := by
  decide +kernel

end PulseVM.Lib.Sha256
