import Oemu.Decode

/-!
# What a refused word is

The decoder refuses a word as unallocated or as outside the subset, with no third status:
`decode_refusal`, by the functions of the decode tree.
-/

namespace Oemu

def Refuses (x : Except Status Insn) : Prop :=
  ∀ st, x = .error st → st = .decode ∨ st = .unsupported

theorem Refuses.ok (insn : Insn) : Refuses (.ok insn) := by
  intro st h
  cases h

theorem Refuses.decode : Refuses (.error .decode) := by
  intro st h
  cases h
  exact .inl rfl

theorem Refuses.unsupported : Refuses (.error .unsupported) := by
  intro st h
  cases h
  exact .inr rfl

theorem Refuses.ite {c : Prop} [Decidable c] {x y : Except Status Insn} (hx : Refuses x)
    (hy : Refuses y) : Refuses (if c then x else y) := by
  split
  · exact hx
  · exact hy

variable (word : W32) (pc : W64)

/-! ## data processing -/

theorem decodeLogicalImm_refuses : Refuses (decodeLogicalImm word) := by
  unfold decodeLogicalImm
  dsimp only
  split
  · exact .decode
  · exact .ok _

theorem decodeDpImmediate_refuses : Refuses (decodeDpImmediate word pc) := by
  have hpc : Refuses (decodePcRelAddr word pc) := .ite (.ok _) (.ok _)
  have haddsub : Refuses (decodeAddsubImm word) := .ite .decode (.ok _)
  unfold decodeDpImmediate
  split
  · exact hpc
  · exact hpc
  · exact haddsub
  · exact haddsub
  · exact decodeLogicalImm_refuses word
  · exact .ite .decode (.ite .decode (.ok _))
  · exact .ite .decode (.ite .decode (.ite .decode (.ok _)))
  · exact .ite .decode (.ite .decode (.ite .decode (.ok _)))

theorem decodeDp1source_refuses : Refuses (decodeDp1source word) := by
  refine .ite .decode ?_
  dsimp only
  split
  · exact .ok _
  · exact .ok _
  · exact .ok _
  · exact .ite .decode (.ok _)
  · exact .ok _
  · exact .ok _
  · exact .decode

theorem decodeDp2source_refuses : Refuses (decodeDp2source word) :=
  .ite .decode (.ite (.ok _) (.ite (.ok _) (.ite (.ok _) (.ite (.ok _) (.ite (.ok _)
    (.ite (.ok _) (.ite (.ok _) .decode)))))))

theorem decodeDp3source_refuses : Refuses (decodeDp3source word) := by
  refine .ite .decode (.ite (.ok _) (.ite .decode ?_))
  split
  · exact .ok _
  · exact .ite .decode (.ok _)
  · exact .ok _
  · exact .ite .decode (.ok _)
  · exact .decode

theorem decodeDpRegister_refuses : Refuses (decodeDpRegister word) := by
  unfold decodeDpRegister
  dsimp only
  split
  · refine .ite (.ite .decode (.ok _)) (.ite ?_ ?_)
    · exact .ite .decode (.ite .decode (.ok _))
    · exact .ite .decode (.ite .decode (.ok _))
  · split
    · exact .ite .decode (.ok _)
    · exact .ite .decode (.ite (.ok _) (.ok _))
    · exact .ite .decode (.ok _)
    · exact .ite (decodeDp1source_refuses word) (decodeDp2source_refuses word)
    · exact .ite (decodeDp3source_refuses word) .decode

/-! ## branches and system -/

theorem decodeException_refuses : Refuses (decodeException word) :=
  .ite .decode (.ite (.ok _) (.ite (.ok _) (.ite (.ok _) (.ite (.ok _) (.ite (.ok _)
    (.ite .unsupported .decode))))))

theorem decodeSystem_refuses : Refuses (decodeSystem word) := by
  refine .ite (.ite .decode (.ite .decode ?_)) (.ite (.ok _) (.ok _))
  exact .ite (.ite (.ok _) (.ite (.ok _) (.ok _))) (.ite (.ok _) (.ite (.ok _) .unsupported))

theorem decodeUncondBranchReg_refuses : Refuses (decodeUncondBranchReg word) := by
  refine .ite (.ite .unsupported .decode) ?_
  dsimp only
  split
  · exact .ok _
  · exact .ok _
  · exact .ok _
  · exact .ok _
  · exact .unsupported
  · exact .decode

theorem decodeBranchSystem_refuses : Refuses (decodeBranchSystem word pc) := by
  have hcompare : Refuses (decodeCompareBranch word pc) := .ok _
  have htest : Refuses (decodeTestBranch word pc) := .ok _
  unfold decodeBranchSystem
  split
  · exact .ok _
  · exact .ok _
  · exact .ite .decode (.ite .decode (.ok _))
  · exact .ite hcompare htest
  · exact .ite hcompare htest
  · exact .ite (decodeUncondBranchReg_refuses word)
      (.ite (decodeException_refuses word) (decodeSystem_refuses word))
  · exact .decode

/-! ## loads and stores -/

theorem classifyLoadStore_refuses (opc : Nat) (size : MemSize) (insn : Insn) :
    Refuses (classifyLoadStore opc size insn) :=
  .ite (.ok _) (.ite (.ok _) (.ite (.ite (.ok _) .decode) (.ite .decode (.ok _))))

theorem ldstSingle_refuses : Refuses (ldstSingle word) := classifyLoadStore_refuses _ _ _

theorem decodeLdstUnsignedImm_refuses : Refuses (decodeLdstUnsignedImm word) := by
  unfold decodeLdstUnsignedImm
  cases hc : ldstSingle word with
  | error st =>
    intro st' h
    cases h
    exact ldstSingle_refuses word _ hc
  | ok insn => exact .ok _

theorem decodeLdstImmUnscaled_refuses : Refuses (decodeLdstImmUnscaled word) := by
  unfold decodeLdstImmUnscaled
  cases hc : ldstSingle word with
  | error st =>
    intro st' h
    cases h
    exact ldstSingle_refuses word _ hc
  | ok insn => exact .ok _

theorem decodeLdstRegOffset_refuses : Refuses (decodeLdstRegOffset word) := by
  refine .ite .decode ?_
  cases hc : ldstSingle word with
  | error st =>
    intro st' h
    cases h
    exact ldstSingle_refuses word _ hc
  | ok insn => exact .ok _

theorem decodeLdstVector_refuses : Refuses (decodeLdstVector word) := by
  refine .ite .unsupported (.ite (.ok _) ?_)
  dsimp only
  split
  · exact .ok _
  · exact .ok _
  · exact .ok _
  · exact .unsupported

theorem decodeLoadStore_refuses : Refuses (decodeLoadStore word pc) := by
  have hpair : Refuses (decodeLdstPair word) := .ite .decode (.ite (.ite .decode (.ok _)) (.ok _))
  have hexclusive : Refuses (decodeLdstExclusive word) :=
    .ite .unsupported (.ite (.ok _) (.ite .decode (.ok _)))
  have hliteral : Refuses (decodeLdstLiteral word pc) := .ite (.ok _) (.ok _)
  have hpairVector : Refuses (decodeLdstPairVector word) := .ite .decode (.ok _)
  refine .ite (.ite (decodeLdstVector_refuses word) (.ite hpairVector .unsupported)) ?_
  refine .ite (.ite .decode hexclusive) (.ite (.ite .decode hliteral) (.ite hpair ?_))
  exact .ite (decodeLdstUnsignedImm_refuses word)
    (.ite (decodeLdstRegOffset_refuses word) (decodeLdstImmUnscaled_refuses word))

/-- **a refused word is unallocated or outside the subset** -/
theorem decode_refusal {st : Status} (h : decode word pc = .error st) :
    st = .decode ∨ st = .unsupported := by
  have href : Refuses (decode word pc) := by
    unfold decode
    split
    · exact decodeDpImmediate_refuses word pc
    · exact decodeDpImmediate_refuses word pc
    · exact decodeBranchSystem_refuses word pc
    · exact decodeBranchSystem_refuses word pc
    · exact decodeLoadStore_refuses word pc
    · exact decodeLoadStore_refuses word pc
    · exact decodeLoadStore_refuses word pc
    · exact decodeLoadStore_refuses word pc
    · exact decodeDpRegister_refuses word
    · exact decodeDpRegister_refuses word
    · exact .ite (.ok _) .unsupported
    · exact .ite (.ok _) .unsupported
    · exact .ite .unsupported .decode
  exact href st h

end Oemu
