import Mathlib.Data.List.Nodup
import Nfql.Pipeline

set_option autoImplicit false

/- The names by which queries call operators and datatypes: utils.c, pipeline.h. -/
namespace Nfql

/-- The `RULE_*` constants that `get_enum` knows. -/
inductive Rule where
  | s2 (width : Width)
  | s1 (width : Width)
  | delta (deltaType : DeltaType)
  | comp (op : CompOp)
  | aggr (op : AggrOp)
  | isIn
  | allen (op : AllenOp)
  deriving DecidableEq, Repr

def Rule.name : Rule → String
  | .s2 .w8 => "RULE_S2_8"
  | .s2 .w16 => "RULE_S2_16"
  | .s2 .w32 => "RULE_S2_32"
  | .s2 .w64 => "RULE_S2_64"
  | .s1 .w8 => "RULE_S1_8"
  | .s1 .w16 => "RULE_S1_16"
  | .s1 .w32 => "RULE_S1_32"
  | .s1 .w64 => "RULE_S1_64"
  | .delta .abs => "RULE_ABS"
  | .delta .rel => "RULE_REL"
  | .delta .no => "RULE_NO"
  | .comp .eq => "RULE_EQ"
  | .comp .ne => "RULE_NE"
  | .comp .gt => "RULE_GT"
  | .comp .lt => "RULE_LT"
  | .comp .le => "RULE_LE"
  | .comp .ge => "RULE_GE"
  | .aggr .static => "RULE_STATIC"
  | .aggr .count => "RULE_COUNT"
  | .aggr .union => "RULE_UNION"
  | .aggr .min => "RULE_MIN"
  | .aggr .max => "RULE_MAX"
  | .aggr .median => "RULE_MEDIAN"
  | .aggr .mean => "RULE_MEAN"
  | .aggr .stddev => "RULE_STDDEV"
  | .aggr .xor => "RULE_XOR"
  | .aggr .sum => "RULE_SUM"
  | .aggr .prod => "RULE_PROD"
  | .aggr .and => "RULE_AND"
  | .aggr .or => "RULE_OR"
  | .isIn => "RULE_IN"
  | .allen .bf => "RULE_ALLEN_BF"
  | .allen .af => "RULE_ALLEN_AF"
  | .allen .m => "RULE_ALLEN_M"
  | .allen .mi => "RULE_ALLEN_MI"
  | .allen .o => "RULE_ALLEN_O"
  | .allen .oi => "RULE_ALLEN_OI"
  | .allen .s => "RULE_ALLEN_S"
  | .allen .si => "RULE_ALLEN_SI"
  | .allen .d => "RULE_ALLEN_D"
  | .allen .di => "RULE_ALLEN_DI"
  | .allen .f => "RULE_ALLEN_F"
  | .allen .fi => "RULE_ALLEN_FI"
  | .allen .eq => "RULE_ALLEN_EQ"

/-- The constants of pipeline.h, as the `uint64_t` that `get_enum` returns. -/
def Rule.value : Rule → BitVec 64
  | .s2 .w8 => 0
  | .s2 .w16 => 1
  | .s2 .w32 => 2
  | .s2 .w64 => 3
  | .s1 .w8 => 0
  | .s1 .w16 => 4
  | .s1 .w32 => 8
  | .s1 .w64 => 12
  | .delta .abs => 0
  | .delta .rel => 16
  | .delta .no => 32
  | .comp .eq => 0
  | .comp .ne => 64
  | .comp .gt => 128
  | .comp .lt => 192
  | .comp .le => 256
  | .comp .ge => 320
  | .aggr .static => 512
  | .aggr .count => 1024
  | .aggr .union => 2048
  | .aggr .min => 4096
  | .aggr .max => 8192
  | .aggr .median => 16384
  | .aggr .mean => 32768
  | .aggr .stddev => 65536
  | .aggr .xor => 131072
  | .aggr .sum => 262144
  | .aggr .prod => 524288
  | .aggr .and => 1048576
  | .aggr .or => 2097152
  | .isIn => 4194304
  | .allen .bf => 8388608
  | .allen .af => 16777216
  | .allen .m => 33554432
  | .allen .mi => 67108864
  | .allen .o => 134217728
  | .allen .oi => 268435456
  | .allen .s => 536870912
  | .allen .si => 1073741824
  | .allen .d => 2147483648
  | .allen .di => 4294967296
  | .allen .f => 8589934592
  | .allen .fi => 17179869184
  | .allen .eq => 34359738368

/-- The constants in the order in which `get_enum` compares their names. -/
def Rule.all : List Rule :=
  [.s2 .w8, .s2 .w16, .s2 .w32, .s2 .w64, .s1 .w8, .s1 .w16, .s1 .w32, .s1 .w64,
    .delta .abs, .delta .rel, .delta .no,
    .comp .eq, .comp .ne, .comp .gt, .comp .lt, .comp .le, .comp .ge,
    .aggr .static, .aggr .count, .aggr .union, .aggr .min, .aggr .max, .aggr .median,
    .aggr .mean, .aggr .stddev, .aggr .xor, .aggr .sum, .aggr .prod, .aggr .and, .aggr .or,
    .isIn, .allen .bf, .allen .af, .allen .m, .allen .mi, .allen .o, .allen .oi, .allen .s,
    .allen .si, .allen .d, .allen .di, .allen .f, .allen .fi, .allen .eq]

/-- The `uint64_t` that is -1. -/
def minusOne : BitVec 64 := BitVec.allOnes 64

/-- `get_enum`: the constant of that name, or -1. -/
def getEnum (name : String) : BitVec 64 :=
  match Rule.all.find? fun rule => decide (name = rule.name) with
  | some rule => rule.value
  | none => minusOne

theorem Rule.mem_all (rule : Rule) : rule ∈ Rule.all := by
  cases rule with
  | s2 width | s1 width => cases width <;> decide
  | delta deltaType => cases deltaType <;> decide
  | comp op => cases op <;> decide
  | aggr op => cases op <;> decide
  | isIn => decide
  | allen op => cases op <;> decide

/-- No two constants share a name. -/
theorem Rule.names_nodup : (Rule.all.map Rule.name).Nodup := by decide +kernel

theorem Rule.name_injective (rule other : Rule) (same : rule.name = other.name) : rule = other :=
  List.inj_on_of_nodup_map Rule.names_nodup rule.mem_all other.mem_all same

theorem Rule.value_ne_minusOne (rule : Rule) : rule.value ≠ minusOne := by
  have values : ∀ rule ∈ Rule.all, rule.value ≠ minusOne := by decide
  exact values rule rule.mem_all

/-- A constant is found by its name. -/
@[simp] theorem getEnum_name (rule : Rule) : getEnum rule.name = rule.value := by
  have found : Rule.all.find? (fun other => decide (rule.name = other.name)) = some rule := by
    cases decided : Rule.all.find? (fun other => decide (rule.name = other.name)) with
    | none =>
        have none_same := List.find?_eq_none.mp decided rule rule.mem_all
        simp at none_same
    | some other =>
        have same := List.find?_some decided
        rw [Rule.name_injective rule other (by simpa using same)]
  rw [getEnum, found]

end Nfql
