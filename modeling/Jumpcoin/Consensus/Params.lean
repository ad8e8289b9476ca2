import Jumpcoin.Primitives.Transaction

/-!
# Consensus parameters

The parameters of `consensus/params.h` that validation reads, with the values `chainparams.cpp`
gives them on the main network, the test network and in regression-test mode.

`Params.valueInitialized` is the object the expression `Params()` denotes inside
`namespace Consensus`: there the name is the structure itself, so the call creates a
value-initialised temporary, and the accessor of the selected network is not reached.
-/

namespace Jumpcoin

structure Params where
  hashGenesisBlock : Uint256
  nMaxReorganizationDepth : Int
  BIP34Height : Int
  BIP34Hash : Uint256
  powLimit : Uint256
  posLimit : Uint256
  posLimitV2 : Uint256
  nTargetSpacingV1 : Int
  fPowNoRetargeting : Bool
  fPoSNoRetargeting : Bool
  nTargetSpacing : Int
  nTargetTimespan : Int
  nProtocolV1RetargetingFixedTime : Int
  nProtocolV2Time : Int
  nProtocolV3Time : Int
  nProtocolV3_1Time : Int
  nLastPOWBlock : Int
  nStakeTimestampMask : Int
  nCoinbaseMaturity : Int
  deriving DecidableEq, Repr

namespace Params

/-- A value-initialised structure: every member is zero. -/
def valueInitialized : Params where
  hashGenesisBlock := 0
  nMaxReorganizationDepth := 0
  BIP34Height := 0
  BIP34Hash := 0
  powLimit := 0
  posLimit := 0
  posLimitV2 := 0
  nTargetSpacingV1 := 0
  fPowNoRetargeting := false
  fPoSNoRetargeting := false
  nTargetSpacing := 0
  nTargetTimespan := 0
  nProtocolV1RetargetingFixedTime := 0
  nProtocolV2Time := 0
  nProtocolV3Time := 0
  nProtocolV3_1Time := 0
  nLastPOWBlock := 0
  nStakeTimestampMask := 0
  nCoinbaseMaturity := 0

/-- A protocol switch by time, with one excepted second. -/
def isAfter (switch except : Int) (nTime : Int) : Bool :=
  decide (switch < nTime) && decide (nTime ≠ except)

section

variable (params : Params) (nTime : Int)

def isProtocolV1RetargetingFixed : Bool :=
  isAfter params.nProtocolV1RetargetingFixedTime 1395631999 nTime

def isProtocolV2 : Bool :=
  isAfter params.nProtocolV2Time 1407053678 nTime

def isProtocolV3 : Bool :=
  isAfter params.nProtocolV3Time 1444028400 nTime

def isProtocolV3_1 : Bool :=
  isAfter params.nProtocolV3_1Time 1667779200 nTime

end

end Params

/-! ## Networks -/

/-- `CChainParams`, as far as validation reads it. -/
structure CChainParams where
  consensus : Params
  checkpoints : List (Int × Uint256)
  deriving DecidableEq, Repr

def mainConsensus : Params where
  hashGenesisBlock := 0x00000fa4edca746cef5d3e903ca8691f3fa9602e6055e351a53be2e109f9a4e3
  nMaxReorganizationDepth := 500
  BIP34Height := -1
  BIP34Hash := 0
  powLimit := 0x00000fffffffffffffffffffffffffffffffffffffffffffffffffffffffffff
  posLimit := 0x00000fffffffffffffffffffffffffffffffffffffffffffffffffffffffffff
  posLimitV2 := 0x000000000000ffffffffffffffffffffffffffffffffffffffffffffffffffff
  nTargetSpacingV1 := 60
  fPowNoRetargeting := false
  fPoSNoRetargeting := false
  nTargetSpacing := 60
  nTargetTimespan := 16 * 60
  nProtocolV1RetargetingFixedTime := 1696771811
  nProtocolV2Time := 1696771812
  nProtocolV3Time := 1696771813
  nProtocolV3_1Time := 4102437600
  nLastPOWBlock := 500
  nStakeTimestampMask := 0xf
  nCoinbaseMaturity := 100

def mainParams : CChainParams where
  consensus := mainConsensus
  checkpoints :=
    [(0, 0x00000fa4edca746cef5d3e903ca8691f3fa9602e6055e351a53be2e109f9a4e3),
     (500, 0xb8cdca879671881ff5b30a873f6a5aec4fac38bd41d709a657a0f6dfa5089d09)]

def testNetParams : CChainParams where
  consensus :=
    { mainConsensus with
      hashGenesisBlock := 0x000054c3da7d354fe66c0c06631682051282f40f8ee0b0815c5e120766112f6a
      powLimit := 0x0000ffffffffffffffffffffffffffffffffffffffffffffffffffffffffffff
      nTargetSpacing := 64
      nProtocolV3_1Time := 1667779200
      nLastPOWBlock := 0x7fffffff
      nCoinbaseMaturity := 10 }
  checkpoints := [(0, 0x000054c3da7d354fe66c0c06631682051282f40f8ee0b0815c5e120766112f6a)]

/-- Regression-test mode; the hash of its genesis block is computed and not written down. -/
def regTestParams (hashGenesisBlock : Uint256) : CChainParams where
  consensus :=
    { mainConsensus with
      hashGenesisBlock
      nMaxReorganizationDepth := 50
      powLimit := 0x0000ffffffffffffffffffffffffffffffffffffffffffffffffffffffffffff
      fPowNoRetargeting := true
      fPoSNoRetargeting := true
      nTargetSpacingV1 := 64
      nTargetSpacing := 64
      nProtocolV1RetargetingFixedTime := 1395631999
      nProtocolV2Time := 1407053625
      nProtocolV3Time := 1444028400
      nLastPOWBlock := 1000
      nCoinbaseMaturity := 10 }
  checkpoints := []

end Jumpcoin
