import Nortia.Program.Metadata

/-!
# `client/src/market-engine.ts`: derived addresses

The addresses that clients read beside a hybrid market.
-/

namespace Nortia.Client

variable (rt : Runtime) (market : Pubkey)

def hybridVaultPda : Pubkey :=
  rt.findProgramAddress [asciiBytes "hybrid-vault".toList, market.toList] crateId

def resolutionReceiptPda : Pubkey :=
  rt.findProgramAddress [asciiBytes "resolution-receipt".toList, market.toList] crateId

def hybridMetadataPda : Pubkey :=
  rt.findProgramAddress [asciiBytes "hybrid-metadata".toList, market.toList] crateId

end Nortia.Client
