/-! Powers of numbers are core's own throughout, also where a library brings another instance. -/
namespace LogBench

@[default_instance 20000]
scoped instance (priority := high) powNat : Pow Nat Nat := instPowNat

end LogBench
