import RobotServer.Text.CText

/-!
# Constants — the macros of `ApolloProtocol.h`

Header bytes, field offsets, lengths, command bytes and return codes of the wire protocol.
-/

namespace RobotServer

open CText

/-! ## Header -/

@[simp] abbrev hdrHeartPacketDevice : Byte := 0x48
@[simp] abbrev hdrHeartPacketPhone : Byte := 0x50
@[simp] abbrev hdrCommandPacket : Byte := 0x43
@[simp] abbrev hdrLocationData : Byte := 0x47
@[simp] abbrev hdrInfoReturn : Byte := 0x52
@[simp] abbrev hdrAddDevice : Byte := 0x41
@[simp] abbrev hdrOperatorUserInfo : Byte := 0x55
@[simp] abbrev hdrBaseStationDevice : Byte := 0x42
@[simp] abbrev hdrBlockDataRecv : Byte := 0x56
@[simp] abbrev hdrBlockDataSend : Byte := 0x44

/-! ## Index -/

@[simp] abbrev idxPhoneId : Nat := 1
@[simp] abbrev idxPhoneCommand : Nat := 5
@[simp] abbrev idxDeviceId : Nat := 1
@[simp] abbrev idxDevicePower : Nat := 9
@[simp] abbrev idxDeviceHeartpacketTimestamp : Nat := 24
@[simp] abbrev idxDeviceLocationtype : Nat := 9
@[simp] abbrev idxDeviceGpsLongitude : Nat := 10
@[simp] abbrev idxDeviceGpsLatitude : Nat := 15
@[simp] abbrev idxDeviceGpsTimestamp : Nat := 20
@[simp] abbrev idxDeviceGpsHigh : Nat := 24
@[simp] abbrev idxDeviceReturnCommand : Nat := 3
@[simp] abbrev idxDeviceReturnIndex : Nat := 4
@[simp] abbrev idxDeviceReturnPhnum : Nat := 5
@[simp] abbrev idxPhoneCmdIndex : Nat := 6
@[simp] abbrev idxPhoneCmdNumber : Nat := 7
@[simp] abbrev idxPhoneUsername : Nat := 6
@[simp] abbrev idxPhonePassword : Nat := 23
@[simp] abbrev idxPhoneReturnUserid : Nat := 6

/-! ## Length -/

@[simp] abbrev lenDeviceId : Nat := 8
@[simp] abbrev lenPhoneId : Nat := 4
@[simp] abbrev lenPhoneNumber : Nat := 8
@[simp] abbrev lenHeartPacketDevice : Nat := 32
@[simp] abbrev lenHeartPacketPhone : Nat := 8
@[simp] abbrev lenGpsLocationData : Nat := 32
@[simp] abbrev lenLabLocationData : Nat := 48
@[simp] abbrev lenCommandPacket : Nat := 16
@[simp] abbrev lenDeviceDownload : Nat := 16
@[simp] abbrev lenDeviceInfo : Nat := 12
@[simp] abbrev lenLongitudeData : Nat := 5
@[simp] abbrev lenLatitudeData : Nat := 5
@[simp] abbrev lenPhoneUsername : Nat := 16
@[simp] abbrev lenPhonePassword : Nat := 8
@[simp] abbrev lenDeviceReturnBuffer : Nat := 6
@[simp] abbrev lenDeviceHeartpacketReturnBuffer : Nat := 20
@[simp] abbrev lenBlockBuffer : Nat := 32 * 1024
@[simp] abbrev lenBlockPacket : Nat := 1024
@[simp] abbrev lenHeaderLength : Nat := 32
@[simp] abbrev lenBlockData : Nat := lenBlockPacket - lenHeaderLength

/-! ## Command -/

@[simp] abbrev cmdPhoneDeviceReset : Byte := 0x1A
@[simp] abbrev cmdPhoneRegisterUser : Byte := 0x71
@[simp] abbrev cmdPhoneSigninUser : Byte := 0x72
@[simp] abbrev cmdPhoneUpdatePwd : Byte := 0x73
@[simp] abbrev cmdPhoneBindDevice : Byte := 0x31
@[simp] abbrev cmdPhoneUnbindDevice : Byte := 0x32
@[simp] abbrev cmdPhoneDeviceRealtimeLocation : Byte := 0x01
@[simp] abbrev cmdPhoneDeviceDownload : Byte := 0x02
@[simp] abbrev cmdPhoneDeviceCountstepOpen : Byte := 0x03
@[simp] abbrev cmdPhoneDeviceCountstepClose : Byte := 0x04
@[simp] abbrev cmdPhoneDeviceSleepquiltyOpen : Byte := 0x05
@[simp] abbrev cmdPhoneDeviceSleepquiltyClose : Byte := 0x06
@[simp] abbrev cmdPhoneDeviceAlarm : Byte := 0x08
@[simp] abbrev cmdPhoneDeviceSafezoneAlarm : Byte := 0x09
@[simp] abbrev cmdPhoneDeviceLongsatAlarm : Byte := 0x0A
@[simp] abbrev cmdPhoneDeviceLowpowerAlarm : Byte := 0x0B
@[simp] abbrev cmdPhoneDeviceFamilynumberSet : Byte := 0x41
@[simp] abbrev cmdPhoneDeviceContractSet : Byte := 0x42
@[simp] abbrev cmdPhoneDevicePhonebookSet : Byte := 0x43
@[simp] abbrev cmdPhoneDeviceFreqSet : Byte := 0x44
@[simp] abbrev cmdPhoneDeviceSosMsgremainerOpen : Byte := 0x51
@[simp] abbrev cmdPhoneDeviceSosMsgremainerClose : Byte := 0x52
@[simp] abbrev cmdPhoneDevicePowerMsgremainderOpen : Byte := 0x53
@[simp] abbrev cmdPhoneDevicePowerMsgremainderClose : Byte := 0x54
@[simp] abbrev cmdPhoneDeviceAlarmmusicOpen : Byte := 0x61
@[simp] abbrev cmdPhoneDeviceAlarmmusicClose : Byte := 0x62
@[simp] abbrev cmdPhoneDeviceSafezonemusicOpen : Byte := 0x63
@[simp] abbrev cmdPhoneDeviceSafezonemusicClose : Byte := 0x64
@[simp] abbrev cmdPhoneDeviceSosClear : Byte := 0x21
@[simp] abbrev cmdPhoneDeviceAgpsDownload : Byte := 0x2B
@[simp] abbrev cmdPhoneBuzzerDeviceOpen : Byte := 0x81
@[simp] abbrev cmdPhoneBuzzerDeviceClose : Byte := 0x82
@[simp] abbrev cmdPhoneLight1DeviceOpen : Byte := 0x83
@[simp] abbrev cmdPhoneLight1DeviceClose : Byte := 0x84
@[simp] abbrev cmdPhoneLight2DeviceOpen : Byte := 0x85
@[simp] abbrev cmdPhoneLight2DeviceClose : Byte := 0x86

/-! ## Return codes -/

@[simp] abbrev retPhoneSuccess : Byte := 0x00
@[simp] abbrev retPhoneGetuseridFailed : Byte := 0x02
@[simp] abbrev retPhoneSigninFailed : Byte := 0x11
@[simp] abbrev retPhoneUseridNoexist : Byte := 0x03
@[simp] abbrev retPhoneUpdatePwdFailed : Byte := 0x04

/-! ## Multicast data types -/

@[simp] abbrev multicastTypeBlock : Byte := 0x31
@[simp] abbrev multicastTypeAgps : Byte := 0x32

end RobotServer
