import Pintos.Foundation.Pushes
import Pintos.Lib.Strtok
import Pintos.Userprog.Loader

/-!
# The argument block

The loops of `setup_stack`: one pass of `strtok_r` over a copy of the command line
counts the arguments, another one pushes the strings and notes their addresses in
`argv`; padding, the pointers, `argv`, `argc` and a return address follow.  The
pushes do not look at the stack, so the stores they make are computed first.
-/

namespace Pintos.Userprog.Loader

open Foundation Filesys Vm

variable (args : List CString)

/-! ## The loops -/

structure StringPushes where
  pushes : Pushes
  i : Nat
  argv : Nat → Nat

def pushString (s : StringPushes) (token : CString) : StringPushes :=
  let pushes := s.pushes.push (token.bytes ++ [0])
  { pushes, i := s.i + 1, argv := update s.argv s.i pushes.pointer }

/-- `for (i = argc; i >= 0; i--)` over the pointers. -/
def pushPointers (argv : Nat → Nat) : Nat → Pushes → Pushes
  | 0, s => s.push (wordBytes (argv 0))
  | i + 1, s => pushPointers argv i (s.push (wordBytes (argv (i + 1))))

/-- The stores of `setup_stack` through `*esp`, once the page is installed.  `heap` and `argv` are
what the allocated blocks held before. -/
def pushArguments (heap : Nat → Memory) (argv : Nat → Nat) (cmdline : CString) : Option Pushes := do
  let size := cmdline.strlen + 1
  let argc ← CString.forTokens (fun argc _ => argc + 1) size size
    (CString.strlcpy (heap 1) 0 cmdline size) 0 0
  let strings ← CString.forTokens pushString size size (CString.strlcpy (heap 0) 0 cmdline size) 0
    ⟨⟨physBase, []⟩, 0, argv⟩
  let argv := update strings.argv argc 0
  let padding := strings.pushes.pointer % 4
  let s := if padding > 0 then strings.pushes.push ((wordBytes (argv argc)).take padding)
    else strings.pushes
  let s := pushPointers argv argc s
  let s := s.push (wordBytes s.pointer)
  let s := s.push (wordBytes argc)
  return s.push (wordBytes (argv argc))

/-! ## The blocks that they push -/

lemma foldl_count (argc : Nat) : args.foldl (fun argc _ => argc + 1) argc = argc + args.length := by
  induction args generalizing argc with
  | nil => rfl
  | cons token args ih =>
    rw [foldl_cons, ih, length_cons]
    omega

lemma argvOf_length (esp : Nat) (args : List CString) : (argvOf esp args).length = args.length := by
  induction args generalizing esp with
  | nil => rfl
  | cons token args ih => rw [argvOf, length_cons, ih, length_cons]

lemma foldl_pushString (s : StringPushes) :
    (args.foldl pushString s).pushes = s.pushes.pushAll (args.map fun token => token.bytes ++ [0]) ∧
      ∀ j, (args.foldl pushString s).argv j =
        if s.i ≤ j ∧ j < s.i + args.length then (argvOf s.pushes.pointer args).getD (j - s.i) 0
        else s.argv j := by
  induction args generalizing s with
  | nil =>
    refine ⟨rfl, fun j => ?_⟩
    rw [if_neg (by simp only [length_nil]; omega)]
    rfl
  | cons token args ih =>
    obtain ⟨hpushes, hargv⟩ := ih (pushString s token)
    rw [foldl_cons]
    refine ⟨hpushes, fun j => ?_⟩
    have hpointer : (pushString s token).pushes.pointer =
      s.pushes.pointer - (token.strlen + 1) := by
      simp [pushString, Pushes.push, CString.strlen]
    have hi : (pushString s token).i = s.i + 1 := rfl
    rw [hargv j, hpointer, hi, argvOf, length_cons]
    by_cases hj : j = s.i
    · subst hj
      rw [if_neg (by omega), if_pos (by omega), Nat.sub_self, List.getD_cons_zero]
      exact (update_self _ _ _).trans hpointer
    by_cases hin : s.i + 1 ≤ j ∧ j < s.i + 1 + args.length
    · rw [if_pos hin, if_pos (by omega), show j - s.i = j - (s.i + 1) + 1 by omega,
        List.getD_cons_succ]
    · rw [if_neg hin, if_neg (by omega)]
      exact update_of_ne hj _ _

lemma pushPointers_eq (argv : Nat → Nat) (argc : Nat) (s : Pushes) : pushPointers argv argc s =
      s.pushAll (((List.range (argc + 1)).reverse.map argv).map wordBytes) := by
  induction argc generalizing s with
  | zero => rfl
  | succ argc ih =>
    have hrange : (List.range (argc + 1 + 1)).reverse =
        (argc + 1) :: (List.range (argc + 1)).reverse := by
      rw [range_succ, reverse_append]
      rfl
    rw [pushPointers, ih, hrange, map_cons, map_cons, Pushes.pushAll_cons]

lemma map_argv {argv : Nat → Nat} {addresses : List Nat}
    (h : ∀ j < addresses.length, argv j = addresses.getD j 0) :
    (List.range (addresses.length + 1)).reverse.map (update argv addresses.length 0) =
      0 :: addresses.reverse := by
  have hrange : (List.range addresses.length).map (update argv addresses.length 0) =
      addresses := by
    apply List.ext_getElem
    · simp
    intro j hj hj'
    rw [List.getElem_map, List.getElem_range, update_of_ne (by omega), h j hj']
    simp [hj']
  rw [range_succ, reverse_append, List.reverse_singleton, List.singleton_append,
    map_cons, update_self, List.map_reverse, hrange]

lemma wordBytes_length (value : Nat) : (wordBytes value).length = 4 := by simp [wordBytes]

lemma take_wordBytes_zero {padding : Nat} (h : padding < 4) :
    (wordBytes 0).take padding = replicate padding 0 := by
  interval_cases padding <;> rfl

lemma strings_size :
    (args.map fun token => token.bytes ++ [0]).flatten.length = stringsSize args := by
  simp [stringsSize, length_flatten, CString.strlen, Function.comp_def]

lemma pointers_size (values : List Nat) : (values.map wordBytes).flatten.length =
    4 * values.length := by
  simp [length_flatten, Function.comp_def, wordBytes_length, Nat.mul_comm]

def paddingSize (args : List CString) : Nat := (physBase - stringsSize args) % 4

def argumentSize (args : List CString) : Nat :=
  stringsSize args + paddingSize args + 4 * (args.length + 1) + 12

lemma argumentBlocks_size : (argumentBlocks args).flatten.length = argumentSize args := by
  simp only [argumentBlocks, List.flatten_append, length_append, strings_size, pointers_size,
    flatten_cons, List.flatten_nil, append_nil, length_replicate, length_cons,
    length_reverse, argvOf_length, wordBytes_length, argumentSize, paddingSize]

lemma sameAs_strlcpy (heap : Memory) (cmdline : CString) :
    cmdline.sameAs (CString.strlcpy heap 0 cmdline (cmdline.strlen + 1)) 0 = true := by
  rw [CString.sameAs_iff]
  intro i hi
  exact CString.strlcpy_inside heap cmdline (by omega) hi

lemma pushArguments_eq (heap : Nat → Memory) (argv : Nat → Nat) (cmdline : CString) :
    pushArguments heap argv cmdline =
      some ((⟨physBase, []⟩ : Pushes).pushAll (argumentBlocks cmdline.tokens)) := by
  have hcnt := cmdline.forTokens_eq (fun argc _ => argc + 1) (cmdline.strlen + 1) 0
    (sameAs_strlcpy (heap 1) cmdline) (Nat.lt_succ_self _) (Nat.lt_succ_self _)
  have hstrings := cmdline.forTokens_eq pushString (cmdline.strlen + 1) ⟨⟨physBase, []⟩,
    0, argv⟩ (sameAs_strlcpy (heap 0) cmdline) (Nat.lt_succ_self _) (Nat.lt_succ_self _)
  rw [foldl_count, Nat.zero_add] at hcnt
  obtain ⟨hpushes, hargv⟩ := foldl_pushString cmdline.tokens ⟨⟨physBase, []⟩, 0, argv⟩
  simp only [pushArguments, hcnt, hstrings, Option.bind_eq_bind, Option.bind_some,
    Option.pure_def, some.injEq]
  generalize cmdline.tokens.foldl pushString ⟨⟨physBase, []⟩, 0, argv⟩ = strings at hpushes hargv ⊢
  generalize cmdline.tokens = args at hpushes hargv ⊢
  simp only [Nat.zero_add, Nat.zero_le, true_and, Nat.sub_zero] at hargv
  have hpointer : strings.pushes.pointer = physBase - stringsSize args := by
    rw [hpushes, Pushes.pushAll_pointer, strings_size]
  have hpointers : (List.range (args.length + 1)).reverse.map
      (update strings.argv args.length 0) = 0 :: (argvOf physBase args).reverse := by
    rw [← argvOf_length physBase args]
    apply map_argv
    intro j hj
    rw [argvOf_length] at hj
    rw [hargv j, if_pos hj]
  -- a padding of no bytes is no push
  have hpadding : (if strings.pushes.pointer % 4 > 0 then
        strings.pushes.push ((wordBytes (update strings.argv args.length 0 args.length)).take
          (strings.pushes.pointer % 4))
      else strings.pushes) = strings.pushes.push (replicate (paddingSize args) 0) := by
    rw [update_self, take_wordBytes_zero (Nat.mod_lt _ (by norm_num)), hpointer]
    by_cases hzero : (physBase - stringsSize args) % 4 > 0
    · rw [if_pos hzero, paddingSize]
    rw [if_neg hzero, paddingSize, Nat.eq_zero_of_not_pos hzero, List.replicate_zero,
      Pushes.push_nil]
  rw [hpadding, pushPointers_eq, hpointers, update_self]
  have hlast : ((strings.pushes.push (replicate (paddingSize args) 0)).pushAll
      ((0 :: (argvOf physBase args).reverse).map wordBytes)).pointer =
        physBase - stringsSize args - paddingSize args - 4 * (args.length + 1) := by
    rw [Pushes.pushAll_pointer, Pushes.push, hpointer, pointers_size, length_cons,
      length_reverse, argvOf_length, length_replicate]
  rw [hlast, hpushes, argumentBlocks, Pushes.pushAll_append, Pushes.pushAll_append,
    Pushes.pushAll_append]
  rfl

/-! ## Reading the block -/

structure ArgumentsAt (read : Nat → Option Byte) (esp : Nat) (args : List (List Byte)) : Prop where
  aligned : esp % 4 = 0
  returnAddress : wordAt read esp = some 0
  argc : wordAt read (esp + 4) = some args.length
  argv : ∃ argv, wordAt read (esp + 8) = some argv ∧
    (∀ i (h : i < args.length), ∃ pointer, wordAt read (argv + 4 * i) = some pointer ∧
      Reads read pointer (args[i] ++ [0])) ∧ wordAt read (argv + 4 * args.length) = some 0

section

variable {read : Nat → Option Byte} {a : Nat}

lemma wordAt_of_wordBytes {value : Nat} (hval : value < 2 ^ 32)
    (h : Reads read a (wordBytes value)) : wordAt read a = some value := wordAt_of_reads hval h

lemma reads_words {values : List Nat} (h : Reads read a (values.map wordBytes).flatten) {i : Nat}
    (hi : i < values.length) : Reads read (a + 4 * i) (wordBytes values[i]) := by
  induction values generalizing a i with
  | nil => exact absurd hi (Nat.not_lt_zero i)
  | cons value values ih =>
    rw [map_cons, flatten_cons, reads_append, wordBytes_length] at h
    cases i with
    | zero => exact h.1
    | succ i =>
      have := ih h.2 (by simpa using hi)
      rwa [show a + 4 * (i + 1) = a + 4 + 4 * i by omega]

lemma reads_strings {esp : Nat} (hroom : stringsSize args ≤ esp)
    (h : Reads read (esp - stringsSize args)
      (args.map fun token => token.bytes ++ [0]).reverse.flatten)
    {i : Nat} (hi : i < args.length) :
    ∃ pointer, (argvOf esp args)[i]? = some pointer ∧ pointer ≤ esp ∧
      Reads read pointer (args[i].bytes ++ [0]) := by
  induction args generalizing esp i with
  | nil => exact absurd hi (Nat.not_lt_zero i)
  | cons token args ih =>
    have hsize : stringsSize (token :: args) = token.strlen + 1 + stringsSize args := by
      simp [stringsSize]
    have hlen : (args.map fun token => token.bytes ++ [0]).reverse.flatten.length =
        stringsSize args := by
      rw [← strings_size]
      simp only [length_flatten, List.map_reverse, List.sum_reverse]
    rw [hsize] at hroom h
    rw [map_cons, reverse_cons, List.flatten_append, reads_append, hlen] at h
    obtain ⟨hrest, htoken⟩ := h
    cases i with
    | zero =>
      refine ⟨esp - (token.strlen + 1), rfl, Nat.sub_le _ _, ?_⟩
      rw [show esp - (token.strlen + 1 + stringsSize args) + stringsSize args =
        esp - (token.strlen + 1) by omega] at htoken
      simpa using htoken
    | succ i =>
      rw [← Nat.sub_sub] at hrest
      obtain ⟨pointer, hpointer, hle, hreads⟩ := ih (by omega) hrest (by simpa using hi)
      exact ⟨pointer, hpointer, by omega, hreads⟩

lemma argumentsAt_of_reads (hroom : argumentSize args ≤ physBase)
    (h : Reads read (physBase - argumentSize args) (argumentBlocks args).reverse.flatten) :
    ArgumentsAt read (physBase - argumentSize args) (args.map (·.bytes)) := by
  have hbase : physBase = 0xC0000000 := rfl
  have hsize : argumentSize args =
      stringsSize args + paddingSize args + 4 * (args.length + 1) + 12 := rfl
  have hpadding : paddingSize args = (physBase - stringsSize args) % 4 := rfl
  -- from below: return address, `argc`, `argv`, the pointers, padding, the strings
  have hblocks : (argumentBlocks args).reverse.flatten = wordBytes 0 ++ (wordBytes args.length ++
        (wordBytes (physBase - stringsSize args - paddingSize args - 4 * (args.length + 1)) ++
          ((((argvOf physBase args) ++ [0]).map wordBytes).flatten ++
            (replicate (paddingSize args) 0 ++
              (args.map fun token => token.bytes ++ [0]).reverse.flatten)))) := by
    simp only [argumentBlocks, reverse_append, reverse_cons, List.reverse_nil, map_cons,
      nil_append, cons_append, flatten_cons, List.flatten_append, List.flatten_nil, append_nil,
      append_assoc, map_append, map_nil, ← List.map_reverse, List.reverse_reverse, paddingSize]
  rw [hblocks] at h
  simp only [reads_append, wordBytes_length, pointers_size, length_append, length_replicate,
    argvOf_length, length_cons, length_nil] at h
  obtain ⟨hreturn, hargc, hargv, hpointers, -, hstrings⟩ := h
  have hargvValue : physBase - stringsSize args - paddingSize args - 4 * (args.length + 1) =
      physBase - argumentSize args + 12 := by omega
  rw [hargvValue] at hargv
  refine ⟨?_, wordAt_of_wordBytes (by norm_num) hreturn, ?_,
    ⟨physBase - argumentSize args + 12, ?_, ?_, ?_⟩⟩
  · omega
  · rw [length_map]
    exact wordAt_of_wordBytes (by omega) hargc
  · rw [show physBase - argumentSize args + 8 = physBase - argumentSize args + 4 + 4 by omega]
    exact wordAt_of_wordBytes (by omega) hargv
  · intro i hi
    rw [length_map] at hi
    have hindex : i < (argvOf physBase args ++ [0]).length := by
      rw [length_append, argvOf_length, length_singleton]
      omega
    rw [show physBase - argumentSize args + 4 + 4 + 4 + 4 * (args.length + (0 + 1)) +
      paddingSize args = physBase - stringsSize args by omega] at hstrings
    have hroom' : stringsSize args ≤ physBase := by omega
    obtain ⟨pointer, hpointer, hle, hreads⟩ := reads_strings args hroom' hstrings hi
    have hword := reads_words hpointers hindex
    have hget : (argvOf physBase args ++ [0])[i] = pointer := by
      have hlt : i < (argvOf physBase args).length := by rwa [argvOf_length]
      rw [List.getElem_append_left hlt]
      exact (getElem?_eq_some_iff.mp hpointer).2
    rw [hget] at hword
    refine ⟨pointer, ?_, by simpa using hreads⟩
    rw [show physBase - argumentSize args + 12 = physBase - argumentSize args + 4 + 4 + 4 by omega]
    exact wordAt_of_wordBytes (by omega) hword
  · rw [length_map]
    have hindex : args.length < (argvOf physBase args ++ [0]).length := by
      rw [length_append, argvOf_length, length_singleton]
      omega
    have hword := reads_words hpointers hindex
    have hget : (argvOf physBase args ++ [0])[args.length] = 0 := by
      rw [List.getElem_append_right (by rw [argvOf_length])]
      simp [argvOf_length]
    rw [hget] at hword
    rw [show physBase - argumentSize args + 12 = physBase - argumentSize args + 4 + 4 + 4 by omega]
    exact wordAt_of_wordBytes (by norm_num) hword

end

end Pintos.Userprog.Loader
