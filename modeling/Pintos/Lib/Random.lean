import Pintos.Foundation.Memory

/-!
# Pseudo-random numbers

The generator of `lib/random.c` and its copy for the checking scripts, `tests/random.pm` over
`tests/arc4.pm`.  A call gives the bytes it produces; `random_ulong` reads four of them as one
little-endian word on both sides.
-/

namespace Pintos.Random

open Foundation

inductive Call where
  | init (seed : Nat)
  | bytes (n : Nat)
  | ulong
  deriving DecidableEq, Repr

def Call.Inits : Call → Bool
  | .init _ => true
  | _ => false

def exchange {α : Type} (s : List α) (a b : Nat) : List α :=
  match s[a]?, s[b]? with
  | some x, some y => (s.set a y).set b x
  | _, _ => s

/-! ## The kernel's generator -/

structure Generator where
  s : List Byte
  i : Byte
  j : Byte
  inited : Bool
  deriving DecidableEq, Repr

def Generator.boot : Generator := ⟨List.replicate 256 0, 0, 0, false⟩

def seedRound (seed : Nat) (sj : List Byte × Byte) (i : Nat) : List Byte × Byte :=
  let j := sj.2 + (sj.1.getD i 0 + wordByte seed (i % 4))
  (exchange sj.1 i j.toNat, j)

def identity : List Byte := (List.range 256).map UInt8.ofNat

def seedLoop (seed : Nat) (rounds : List Nat) : List Byte × Byte :=
  rounds.foldl (seedRound seed) (identity, 0)

def randomInit (seed : Nat) : Generator := ⟨(seedLoop seed (List.range 256)).1, 0, 0, true⟩

def randomByte (g : Generator) : Byte × Generator :=
  let i := g.i + 1
  let j := g.j + g.s.getD i.toNat 0
  let s := exchange g.s i.toNat j.toNat
  (s.getD (s.getD i.toNat 0 + s.getD j.toNat 0).toNat 0, { g with s, i, j })

def byteLoop : Nat → Generator → List Byte × Generator
  | 0, g => ([], g)
  | n + 1, g =>
    let (b, g) := randomByte g
    let (bytes, g) := byteLoop n g
    (b :: bytes, g)

def randomBytes (n : Nat) (g : Generator) : List Byte × Generator :=
  byteLoop n (if g.inited then g else randomInit 0)

def call (g : Generator) : Call → List Byte × Generator
  | .init seed => ([], randomInit seed)
  | .bytes n => randomBytes n g
  | .ulong => randomBytes 4 g

def calls : List Call → Generator → List Byte × Generator
  | [], g => ([], g)
  | c :: rest, g =>
    let (first, g) := call g c
    let (bytes, g) := calls rest g
    (first ++ bytes, g)

/-! ## The copy in Perl -/

structure Arc4 where
  i : Nat
  j : Nat
  s : List Nat
  deriving DecidableEq, Repr

variable {g : Generator} {arc4 : Arc4}

def packV (seed : Nat) : List Nat := (List.range 4).map fun k => (wordByte seed k).toNat

def keyRound (key : List Nat) (sj : List Nat × Nat) (i : Nat) : List Nat × Nat :=
  let j := (sj.2 + sj.1.getD i 0 + key.getD (i % key.length) 0) &&& 0xff
  (exchange sj.1 i j, j)

def keyLoop (key : List Nat) (rounds : List Nat) : List Nat × Nat :=
  rounds.foldl (keyRound key) (List.range 256, 0)

def arc4Init (key : List Nat) : Arc4 := ⟨0, 0, (keyLoop key (List.range 256)).1⟩

def arc4Crypt : List Nat → Arc4 → List Nat × Arc4
  | [], arc4 => ([], arc4)
  | c :: buf, ⟨i, j, s⟩ =>
    let i := (i + 1) &&& 0xff
    let j := (j + s.getD i 0) &&& 0xff
    let s := exchange s i j
    let (out, arc4) := arc4Crypt buf ⟨i, j, s⟩
    ((c ^^^ s.getD ((s.getD i 0 + s.getD j 0) &&& 0xff) 0) :: out, arc4)

/-- `random_init` of the script; nothing stands for the empty array `@arc4`. -/
def perlInit (seed : Nat) : Option Arc4 → Arc4
  | none => arc4Init (packV seed)
  | some arc4 => arc4

def perlCall (arc4 : Option Arc4) : Call → List Nat × Arc4
  | .init seed => ([], perlInit seed arc4)
  | .bytes n => arc4Crypt (List.replicate n 0) (perlInit 0 arc4)
  | .ulong => arc4Crypt (List.replicate 4 0) (perlInit 0 arc4)

def perlCalls : List Call → Option Arc4 → List Nat × Option Arc4
  | [], arc4 => ([], arc4)
  | c :: rest, arc4 =>
    let (first, arc4) := perlCall arc4 c
    let (bytes, arc4) := perlCalls rest (some arc4)
    (first ++ bytes, arc4)

/-! ## The table is a permutation -/

section Exchange

variable {α β : Type} (s : List α) (a b : Nat)

lemma exchange_perm : (exchange s a b).Perm s := by
  unfold exchange
  split
  · next x y hx hy =>
    obtain ⟨ha, rfl⟩ := List.getElem?_eq_some_iff.mp hx
    obtain ⟨hb, rfl⟩ := List.getElem?_eq_some_iff.mp hy
    exact List.set_set_perm ha hb
  · rfl

lemma map_exchange (f : α → β) : (exchange s a b).map f = exchange (s.map f) a b := by
  simp only [exchange, List.getElem?_map]
  cases s[a]? <;> cases s[b]? <;> simp [List.map_set]

end Exchange

lemma seedLoop_perm (seed : Nat) (rounds : List Nat) : (seedLoop seed rounds).1.Perm identity := by
  induction rounds using List.reverseRecOn with
  | nil => rfl
  | append_singleton rounds i ih =>
    rw [seedLoop, List.foldl_append]
    exact (exchange_perm _ _ _).trans ih

section Run

-- A projection of `seedLoop` must not be computed.
attribute [local irreducible] seedLoop

lemma byteLoop_perm (n : Nat) (g : Generator) : (byteLoop n g).2.s.Perm g.s ∧
    (byteLoop n g).2.inited = g.inited := by
  induction n generalizing g with
  | zero => exact ⟨.refl _, rfl⟩
  | succ n ih => exact ⟨(ih _).1.trans (exchange_perm _ _ _), (ih _).2⟩

def TableOk (g : Generator) : Prop := g.inited = true → g.s.Perm identity

lemma randomInit_tableOk (seed : Nat) : TableOk (randomInit seed) := by
  intro _
  exact seedLoop_perm seed (List.range 256)

lemma call_tableOk (h : TableOk g) (c : Call) : TableOk (call g c).2 := by
  have hbytes : ∀ n, TableOk (randomBytes n g).2 := by
    intro n hinited
    obtain ⟨hperm, heq⟩ := byteLoop_perm n (if g.inited then g else randomInit 0)
    refine hperm.trans ?_
    split
    · next hg => exact h hg
    · exact randomInit_tableOk 0 rfl
  cases c with
  | init seed => exact randomInit_tableOk seed
  | bytes n => exact hbytes n
  | ulong => exact hbytes 4

lemma calls_tableOk (cs : List Call) (h : TableOk g) : TableOk (calls cs g).2 := by
  induction cs generalizing g with
  | nil => exact h
  | cons c cs ih => exact ih (call_tableOk h c)

end Run

/-! ## The two agree while the generator is not seeded again -/

structure Twin (g : Generator) (arc4 : Arc4) : Prop where
  inited : g.inited = true
  i : arc4.i = g.i.toNat
  j : arc4.j = g.j.toNat
  s : arc4.s = g.s.map UInt8.toNat

lemma getD_map_toNat (s : List Byte) (k : Nat) :
    (s.map UInt8.toNat).getD k 0 = (s.getD k 0).toNat := by
  simp only [List.getD_eq_getElem?_getD, List.getElem?_map]
  cases s[k]? <;> rfl

lemma and_0xff (n : Nat) : n &&& 0xff = n % 256 := Nat.and_two_pow_sub_one_eq_mod n 8

lemma packV_getD (seed i : Nat) :
    (packV seed).getD (i % (packV seed).length) 0 = (wordByte seed (i % 4)).toNat := by
  have hlt := Nat.mod_lt i (show 0 < 4 by decide)
  simp [packV, List.getD_eq_getElem?_getD, hlt]

lemma map_identity : identity.map UInt8.toNat = List.range 256 := by
  rw [identity, List.map_map, List.map_congr_left, List.map_id']
  intro n hn
  exact UInt8.toNat_ofNat_of_lt (List.mem_range.mp hn)

lemma keyLoop_eq (seed : Nat) (rounds : List Nat) : keyLoop (packV seed) rounds =
    ((seedLoop seed rounds).1.map UInt8.toNat, (seedLoop seed rounds).2.toNat) := by
  induction rounds using List.reverseRecOn with
  | nil => rw [keyLoop, List.foldl_nil, ← map_identity]; rfl
  | append_singleton rounds i ih =>
    rw [keyLoop, List.foldl_append, ← keyLoop, ih, seedLoop.eq_1 seed (rounds ++ [i]),
      List.foldl_append,
      ← seedLoop]
    generalize seedLoop seed rounds = sj
    have hsum : (sj.2.toNat + (sj.1.getD i 0).toNat + (wordByte seed (i % 4)).toNat) % 256 =
        (sj.2.toNat + ((sj.1.getD i 0).toNat + (wordByte seed (i % 4)).toNat) % 2 ^ 8) % 2 ^ 8 := by
      omega
    simp only [List.foldl_cons, List.foldl_nil, keyRound, seedRound, getD_map_toNat, packV_getD,
      and_0xff, map_exchange, UInt8.toNat_add, hsum]

section Run

attribute [local irreducible] seedLoop

lemma twin_randomInit (seed : Nat) : Twin (randomInit seed) (arc4Init (packV seed)) := by
  rw [randomInit, arc4Init, keyLoop_eq]
  exact ⟨rfl, rfl, rfl, rfl⟩

lemma Twin.crypt (h : Twin g arc4) (n : Nat) :
    (arc4Crypt (List.replicate n 0) arc4).1 = (byteLoop n g).1.map UInt8.toNat ∧
      Twin (byteLoop n g).2 (arc4Crypt (List.replicate n 0) arc4).2 := by
  induction n generalizing g arc4 with
  | zero => exact ⟨rfl, h⟩
  | succ n ih =>
    obtain ⟨i, j, s⟩ := arc4
    obtain ⟨hinited, rfl, rfl, rfl⟩ := h
    simp only [List.replicate_succ, arc4Crypt, byteLoop, randomByte]
    have hi : (g.i.toNat + 1) &&& 0xff = (g.i + 1).toNat := by simp [and_0xff]
    have hj : ∀ b c : Byte, (b.toNat + c.toNat) &&& 0xff = (b + c).toNat := by simp [and_0xff]
    simp only [hi, getD_map_toNat, hj, ← map_exchange, Nat.zero_xor, List.map_cons]
    have hnext : Twin (randomByte g).2 ⟨(g.i + 1).toNat, (g.j + g.s.getD (g.i + 1).toNat 0).toNat,
        (randomByte g).2.s.map UInt8.toNat⟩ := ⟨hinited, rfl, rfl, rfl⟩
    obtain ⟨hbytes, htwin⟩ := ih hnext
    exact ⟨congrArg _ hbytes, htwin⟩

/-- The calls without those that seed a generator that has been seeded. -/
def seededOnce : List Call → List Call
  | [] => []
  | c :: rest => c :: rest.filter (! ·.Inits)

lemma Twin.call (h : Twin g arc4) {c : Call} (hc : c.Inits = false) : (perlCall (some arc4) c).1 =
    (call g c).1.map UInt8.toNat ∧ Twin (Random.call g c).2 (perlCall (some arc4) c).2 := by
  cases c with
  | init seed => simp [Call.Inits] at hc
  | bytes n =>
    simp only [Random.call, randomBytes, if_pos h.inited]
    exact h.crypt n
  | ulong =>
    simp only [Random.call, randomBytes, if_pos h.inited]
    exact h.crypt 4

lemma Twin.calls (h : Twin g arc4) (cs : List Call) :
    (perlCalls cs (some arc4)).1 = (calls (cs.filter (! ·.Inits)) g).1.map UInt8.toNat ∧
      ∃ arc4', (perlCalls cs (some arc4)).2 = some arc4' ∧
        Twin (Random.calls (cs.filter (! ·.Inits)) g).2 arc4' := by
  induction cs generalizing g arc4 with
  | nil => exact ⟨rfl, arc4, rfl, h⟩
  | cons c cs ih =>
    cases hc : c.Inits with
    | true =>
      obtain ⟨seed, rfl⟩ : ∃ seed, c = .init seed := by cases c <;> simp_all [Call.Inits]
      rw [List.filter_cons_of_neg (by simp [hc])]
      exact ih h
    | false =>
      rw [List.filter_cons_of_pos (by simp [hc])]
      obtain ⟨hfirst, htwin⟩ := h.call hc
      obtain ⟨hbytes, arc4', heq, htwin'⟩ := ih htwin
      refine ⟨?_, arc4', heq, htwin'⟩
      simp only [perlCalls, Random.calls, hfirst, hbytes, List.map_append]

/-- The bytes that the checking script produces, and those that the generator does. -/
def perlBytes (cs : List Call) : List Nat := (perlCalls cs none).1

def bytes (cs : List Call) : List Byte := (calls cs .boot).1

lemma perlCalls_eq (cs : List Call) : perlBytes cs = (bytes (seededOnce cs)).map UInt8.toNat ∧
    ∀ arc4 ∈ (perlCalls cs none).2, Twin (calls (seededOnce cs) .boot).2 arc4 := by
  cases cs with
  | nil => exact ⟨rfl, nofun⟩
  | cons c cs =>
    have hfirst : (perlCall none c).1 = (call .boot c).1.map UInt8.toNat ∧
        Twin (call .boot c).2 (perlCall none c).2 := by
      cases c with
      | init seed => exact ⟨rfl, twin_randomInit seed⟩
      | bytes n => exact (twin_randomInit 0).crypt n
      | ulong => exact (twin_randomInit 0).crypt 4
    obtain ⟨hbytes, arc4, heq, htwin⟩ := hfirst.2.calls cs
    constructor
    · simp only [perlBytes, bytes, perlCalls, seededOnce, calls, hfirst.1, hbytes, List.map_append]
    intro arc4' hmem
    obtain rfl : arc4 = arc4' := Option.some.inj (heq.symm.trans hmem)
    exact htwin

def Call.Draws : Call → Bool
  | .init _ | .bytes 0 => false
  | _ => true

/-- No byte is drawn after a `random_init` that is not the first call. -/
def SeededFirst (cs : List Call) : Prop :=
  cs.tail.Pairwise fun c d => c.Inits = true → d.Draws = false

def Call.reseed (seed : Nat) : Call → Call
  | .init _ => .init seed
  | c => c

/-- The same calls, possibly with other seeds. -/
def SameCalls (cs cs' : List Call) : Prop := cs.map (·.reseed 0) = cs'.map (·.reseed 0)

lemma calls_silent (cs : List Call) (g : Generator) (hcs : ∀ c ∈ cs, c.Draws = false) :
    (calls cs g).1 = [] := by
  induction cs generalizing g with
  | nil => rfl
  | cons c cs ih =>
    obtain ⟨hc, hcs⟩ := List.forall_mem_cons.mp hcs
    have hfirst : (call g c).1 = [] := by
      cases c with
      | init seed => rfl
      | bytes n => cases n with
        | zero => rfl
        | succ n => cases hc
      | ulong => cases hc
    simp only [calls, hfirst, ih _ hcs, List.append_nil]

lemma calls_seededFirst (cs : List Call) (g : Generator)
    (hcs : cs.Pairwise fun c d => c.Inits = true → d.Draws = false) :
    (calls (cs.filter (! ·.Inits)) g).1 = (calls cs g).1 := by
  induction cs generalizing g with
  | nil => rfl
  | cons c cs ih =>
    obtain ⟨hc, hcs⟩ := List.pairwise_cons.mp hcs
    cases hinits : c.Inits with
    | true =>
      have hsilent : ∀ d ∈ cs, d.Draws = false := fun d hd => hc d hd hinits
      have hnone : c.Draws = false := by cases c <;> simp_all [Call.Inits, Call.Draws]
      rw [List.filter_cons_of_neg (by simp [hinits]),
        calls_silent _ _ fun d hd => hsilent d (List.mem_of_mem_filter hd),
        calls_silent _ _ (List.forall_mem_cons.mpr ⟨hnone, hsilent⟩)]
    | false =>
      rw [List.filter_cons_of_pos (by simp [hinits])]
      simp only [calls, ih _ hcs]

lemma randomByte_first : (randomByte (randomInit 0)).1 = 0xDE ∧
    (randomByte (randomByte (randomInit 0)).2).1 = 0x18 ∧ (randomByte (randomInit 1)).1 ≠ 0xDE := by
  decide +kernel

-- From two seeds on, the generators stay as they are until a byte is drawn, and it differs.
lemma calls_fresh_ne (cs : List Call) (hdraws : ∃ c ∈ cs, c.Draws = true) :
    (calls (cs.map (·.reseed 0)) (randomInit 0)).1 ≠
      (calls (cs.map (·.reseed 1)) (randomInit 1)).1 := by
  induction cs with
  | nil => simp at hdraws
  | cons c cs ih =>
    have hne : (randomByte (randomInit 0)).1 ≠ (randomByte (randomInit 1)).1 := by
      rw [randomByte_first.1]
      exact randomByte_first.2.2.symm
    cases c with
    | init seed => exact ih (by simpa [Call.Draws] using hdraws)
    | bytes n => cases n with
      | zero => exact ih (by simpa [Call.Draws] using hdraws)
      | succ n => exact fun heq => hne (List.head_eq_of_cons_eq heq)
    | ulong => exact fun heq => hne (List.head_eq_of_cons_eq heq)

lemma calls_cons (c : Call) (cs : List Call) (g : Generator) :
    (calls (c :: cs) g).1 = (call g c).1 ++ (calls cs (call g c).2).1 := rfl

lemma calls_reseed_ne (cs : List Call) (g : Generator)
    (hcs : ¬ cs.Pairwise fun c d => c.Inits = true → d.Draws = false) :
    (calls (cs.map (·.reseed 0)) g).1 ≠ (calls (cs.map (·.reseed 1)) g).1 := by
  induction cs generalizing g with
  | nil => exact absurd .nil hcs
  | cons c cs ih =>
    rw [List.pairwise_cons] at hcs
    rw [List.map_cons, List.map_cons, calls_cons, calls_cons]
    cases c with
    | init seed =>
      refine calls_fresh_ne cs ?_
      by_contra hdraws
      have hsilent : ∀ d ∈ cs, d.Draws = false := by simpa using hdraws
      exact hcs ⟨fun d hd _ => hsilent d hd,
        List.pairwise_of_forall_mem_list fun _ _ d hd _ => hsilent d hd⟩
    | bytes n =>
      exact fun heq => ih _ (fun h => hcs ⟨fun _ _ => nofun, h⟩) (List.append_cancel_left heq)
    | ulong =>
      exact fun heq => ih _ (fun h => hcs ⟨fun _ _ => nofun, h⟩) (List.append_cancel_left heq)

lemma filter_reseed (cs : List Call) (seed : Nat) :
    (cs.map (·.reseed seed)).filter (! ·.Inits) = cs.filter (! ·.Inits) := by
  induction cs with
  | nil => rfl
  | cons c cs ih =>
    cases c with
    | init _ => exact ih
    | bytes n => exact congrArg (Call.bytes n :: ·) ih
    | ulong => exact congrArg (Call.ulong :: ·) ih

lemma SeededFirst.sameCalls {cs cs' : List Call} (h : SeededFirst cs) (hsame : SameCalls cs cs') :
    SeededFirst cs' := by
  have hmap : ∀ ds : List Call, SeededFirst (ds.map (·.reseed 0)) ↔ SeededFirst ds := by
    intro ds
    have hinits : ∀ c : Call, (c.reseed 0).Inits = c.Inits ∧ (c.reseed 0).Draws = c.Draws := by
      rintro (_ | _ | _) <;> exact ⟨rfl, rfl⟩
    simp [SeededFirst, ← List.map_tail, List.pairwise_map, hinits]
  rw [← hmap, ← hsame, hmap]
  exact h

-- Perl ignores the later seeds, so they cannot change the bytes of the kernel either.
lemma calls_reseed_of_agree {c : Call} {cs : List Call}
    (hagree : ∀ cs', SameCalls (c :: cs) cs' → (bytes cs').map UInt8.toNat = perlBytes cs')
    (seed : Nat) : (calls (cs.map (·.reseed seed)) (call .boot c).2).1 =
      (calls (cs.filter (! ·.Inits)) (call .boot c).2).1 := by
  have hsame : SameCalls (c :: cs) (c :: cs.map (·.reseed seed)) := by
    have hreseed : ∀ d : Call, (d.reseed seed).reseed 0 = d.reseed 0 := by
      rintro (_ | _ | _) <;> rfl
    simp [SameCalls, hreseed]
  have hbytes := hagree _ hsame
  rw [(perlCalls_eq _).1] at hbytes
  have heq := List.map_injective_iff.mpr (fun _ _ => UInt8.toNat_inj.mp) hbytes
  rw [bytes, bytes, seededOnce, filter_reseed] at heq
  exact List.append_cancel_left heq

/-- Whatever the seeds, the bytes agree if none is drawn after a second seeding, and only then. -/
theorem randomTwin_agrees_iff (cs : List Call) :
    ((∀ cs', SameCalls cs cs' → (bytes cs').map UInt8.toNat = perlBytes cs') ↔ SeededFirst cs) ∧
      ((calls cs .boot).2.inited = true →
        (calls cs .boot).2.s.Perm ((List.range 256).map UInt8.ofNat)) ∧
      ∀ arc4 ∈ (perlCalls cs none).2, arc4.s.Perm (List.range 256) := by
  have hboot : TableOk .boot := nofun
  refine ⟨⟨fun hagree => ?_, fun hfirst cs' hsame => ?_⟩, calls_tableOk cs hboot,
    fun arc4 hmem => ?_⟩
  · cases cs with
    | nil => exact .nil
    | cons c cs =>
      by_contra hnot
      have hbytes := calls_reseed_of_agree hagree
      exact calls_reseed_ne cs _ hnot ((hbytes 0).trans (hbytes 1).symm)
  · rw [(perlCalls_eq _).1]
    refine congrArg _ ?_
    have hfirst' := hfirst.sameCalls hsame
    cases cs' with
    | nil => rfl
    | cons c cs' => simp only [bytes, seededOnce, calls, calls_seededFirst cs' _ hfirst']
  · have h := (perlCalls_eq cs).2 arc4 hmem
    rw [h.s, ← map_identity]
    exact (calls_tableOk (seededOnce cs) hboot h.inited).map _

theorem randomInit_again : bytes [.init 0, .bytes 1, .init 0, .bytes 1] = [0xDE, 0xDE] ∧
    perlBytes [.init 0, .bytes 1, .init 0, .bytes 1] = [0xDE, 0x18] := by
  have hinited : (randomInit 0).inited = true ∧ (randomByte (randomInit 0)).2.inited = true :=
    ⟨rfl, rfl⟩
  rw [(perlCalls_eq _).1]
  simp [bytes, seededOnce, Call.Inits, calls, call, randomBytes, byteLoop,
    randomByte_first, hinited]

end Run

end Pintos.Random
