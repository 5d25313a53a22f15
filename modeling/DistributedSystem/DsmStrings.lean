import DistributedSystem.DsmServer
import Mathlib.Data.List.TakeWhile

/-!
# Names and addresses in arrays of bytes

A name and an address are C strings in arrays of a fixed length, which they need not
leave room in for the zero byte. `strncpy` cuts a string off at the length of the array,
and `strncmp` compares what stands before the first zero byte.
-/
namespace DistributedSystem.Dsm

variable {n : ℕ}

theorem ne_zero_of_mem_cstr {bytes : List UInt8} : ∀ c ∈ cstr bytes, c ≠ 0 := by
  intro c hc
  simpa using List.mem_takeWhile_imp hc

theorem cstr_append {bytes : List UInt8} (h : ∀ c ∈ bytes, c ≠ 0) (behind : List UInt8) :
    cstr (bytes ++ behind) = bytes ++ cstr behind := by
  unfold cstr
  rw [List.takeWhile_append_of_pos (by simpa using h)]

theorem cstr_replicate_zero (n : ℕ) : cstr (List.replicate n 0) = [] := by
  cases n <;> rfl

/-- The array is the string as far as there is room, and zeros. -/
theorem toList_strncpy (n : ℕ) (src : List UInt8) :
    (strncpy n src).toList =
      (cstr src).take n ++ List.replicate (n - (cstr src).length) 0 := by
  refine List.ext_getElem? ?_
  intro i
  rw [List.getElem?_append, List.getElem?_take, List.getElem?_replicate, List.length_take,
    strncpy, Vector.toList_ofFn, List.getElem?_ofFn]
  by_cases hn : i < n
  · by_cases hc : i < (cstr src).length
    · simp [hn, hc]
    · have hrest : i - min n (cstr src).length < n - (cstr src).length := by omega
      simp [hn, hc, hrest]
  · have hrest : ¬ i - min n (cstr src).length < n - (cstr src).length := by omega
    simp [hn, hrest]

theorem cstr_strncpy (n : ℕ) (src : List UInt8) :
    cstr (strncpy n src).toList = (cstr src).take n := by
  have hne : ∀ c ∈ (cstr src).take n, c ≠ 0 :=
    fun c hc => ne_zero_of_mem_cstr c (List.mem_of_mem_take hc)
  rw [toList_strncpy, cstr_append hne, cstr_replicate_zero, List.append_nil]

theorem length_cstr_le (a : Vector UInt8 n) : (cstr a.toList).length ≤ n := by
  have hle : (cstr a.toList).length ≤ a.toList.length := (List.takeWhile_sublist _).length_le
  rwa [Vector.length_toList] at hle

theorem strncmpEq_iff {a b : Vector UInt8 n} :
    strncmpEq a b = true ↔ cstr a.toList = cstr b.toList := by
  rw [strncmpEq, decide_eq_true_eq]

/-- A copy of an array compares equal to it. -/
theorem strncmpEq_strncpy (a : Vector UInt8 n) : strncmpEq (strncpy n a.toList) a = true := by
  rw [strncmpEq_iff, cstr_strncpy, List.take_of_length_le (length_cstr_le a)]

end DistributedSystem.Dsm
