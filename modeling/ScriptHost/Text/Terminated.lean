import ScriptHost.Bytes

/-! Text in memory that ends at its first zero byte. -/

namespace ScriptHost.Terminated

/-- Bytes followed by the zero that ends them. -/
def write (bytes : Bytes) : Bytes :=
  bytes ++ [0]

/-- The bytes before the first zero. -/
def read (memory : Bytes) : Bytes :=
  memory.takeWhile (· ≠ 0)

theorem read_write {bytes : Bytes} (h : 0 ∉ bytes) : read (write bytes) = bytes := by
  induction bytes with
  | nil => rfl
  | cons b rest ih =>
    have hb : b ≠ 0 := fun hb => h (by simp [hb])
    have hr : 0 ∉ rest := fun hr => h (List.mem_cons_of_mem _ hr)
    have ih := ih hr
    simp only [read, write, List.cons_append] at ih ⊢
    rw [List.takeWhile_cons_of_pos (by simp [hb]), ih]

end ScriptHost.Terminated
