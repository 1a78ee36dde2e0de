set_option autoImplicit false

namespace SpendAuth.Opcode

-- The codes 1 to 75 push that many bytes and have no name.

def op0 : UInt8 := 0
def opFalse : UInt8 := 0
def opPushData1 : UInt8 := 76
def opPushData2 : UInt8 := 77
def opPushData4 : UInt8 := 78
def op1Negate : UInt8 := 79
def op1 : UInt8 := 81
def opTrue : UInt8 := 81
def op16 : UInt8 := 96
def opNop : UInt8 := 97
def opVerify : UInt8 := 105
def opReturn : UInt8 := 106
def opDup : UInt8 := 118
def opEqual : UInt8 := 135
def opEqualVerify : UInt8 := 136
def opHash160 : UInt8 := 169
def opHash256 : UInt8 := 170
def opCodeSeparator : UInt8 := 171
def opCheckSig : UInt8 := 172
def opCheckSigVerify : UInt8 := 173
def opCheckMultiSig : UInt8 := 174
def opCheckMultiSigVerify : UInt8 := 175

end SpendAuth.Opcode
