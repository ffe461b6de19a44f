import Cromwell.Std.BitFields

/-!
# The font

A proportional font of 94 glyphs, 16 pixels high. Four bits say how bright a pixel is, and a
line of pixels goes through all glyphs one behind the other.
-/

namespace Cromwell.Video

open Cromwell.Std

/-- The column at which a glyph starts, from that of `!` on, and at last the end of the bitmap. -/
def waStarts : List Nat := [
  0, 4, 12, 20, 29, 42, 53, 56, 62, 67, 73, 81, 85, 91, 95, 100,
  109, 117, 125, 133, 142, 149, 158, 166, 174, 184, 189, 193, 202, 211, 219, 229,
  243, 254, 265, 276, 288, 297, 306, 318, 330, 333, 343, 353, 362, 376, 386, 398,
  407, 420, 430, 440, 449, 460, 470, 484, 495, 505, 514, 518, 523, 529, 535, 546,
  550, 559, 568, 576, 585, 594, 600, 608, 618, 621, 626, 635, 639, 652, 662, 671,
  680, 690, 696, 704, 709, 718, 727, 738, 747, 756, 763, 769, 774, 779, 788]

def uiPixelsX : Nat := 789
def uiPixelsY : Nat := 16

/-- The lines of the table of `baCharset`, the bytes of each as one number. -/
def charsetLines : List Nat := [
  0x000000351353000000000000A3000000, 0x00000000000000000000005510000110,
  0x00000000000000000000000000000000, 0x00000000000000000000000000000000,
  0x00000000000000000000000000000000, 0x00000000000000000000000000000000,
  0x00000000000000000000000000000000, 0x00000000000000000000000000000000,
  0x00000000000000000000000000000000, 0x00000000000000000000000000000000,
  0x00000000000000000000000000000000, 0x00000000000000000000000000000000,
  0x00000000000000000000000000000000, 0x00000000000000000000000000000000,
  0x00000000000000000000000000000000, 0x00000000000000000000000000000000,
  0x00035530000155500000000000000000, 0x00350000000000015500000000000000,
  0x00000035300000000000155100000000, 0x03530000000000000003530000015500,
  0x00000000000000000000000000000000, 0x00000000000000000000000000000000,
  0x00000000000000000000000000000000, 0x00000000000000000000000000000033,
  0x00510050000000000000003AA00AF57F, 0x80001A0370017FA510018A300001F500,
  0x005EFE50000FF3000AAAA10000870000, 0x000000000000000000000003A008FE50,
  0x00015AA0005CFFC5003AFFE80000003A, 0xA000AAAAA30005CFFC03AAAAAA7005CF,
  0xF80003CFF80000000000000000000000, 0x00000000000000003AFFFFA100000018,
  0xEFF8100000008A700000AAAAAAA50000, 0x07AFFFFA307AAAA8300007AAAAAAA307,
  0xAAAAAAA0003AFFFFEA007A70007A700A, 0xA300000AA300AA30007A100AA3000000,
  0x7AA30005AA300AA10003A30001AFFFA1, 0x0003AAAAAA500005CFFE80000AAAAAA7,
  0x000018EFFFC707AAAAAAAA07A70000AA, 0x33AA000007A3A70003A70003A37AA000,
  0x08A0AA500005A33AAAAAAA30AFFEA000, 0x5FFF00000500000000000001EA000000,
  0x00005FF00000000000000000000AFA00, 0x000000005FFF5000000000AFA0000003,
  0xAA03AA00AFA000005FF0000000000000, 0x00000000000000000000000000000000,
  0x00000000000000000000000000000000, 0x00000000000000000000000000000000,
  0x000000000000000001EFA00F500FF500, 0x000000000005FF00AF15F50005C0A701,
  0xEFFEF700EECF3000E800005FE5EF1000, 0xFF000AF33FE0010A8110000000000000,
  0x000000000000AA08F8CF5008FFFA000A, 0xC57FF305C57EF800001EFF000FFFFF50,
  0x08FE58E05FFFFFFA03FF5CFA03FE5AF8, 0x00000000000000000000000000000000,
  0x000005E855CFE100005F71018E100000, 0x1FFF00000FFCAACFF8000AFE857CF50A,
  0xFEACFFA000AFEAAAAA30AFEAAAAA005F, 0xFA558EF00AFA000AFA00FF500000FF50,
  0x0FF5005FA000FF5000000AFF8000AFF5, 0x00FFA0005F5003FF858FF5005FFAACFF,
  0x8008FE75CFE100FFCAAFFE000CFC558E, 0xA07AAEFEAAA0AFA0000FF51FF50000EC,
  0x3FF0008FF0008F01FF8005F807FE0001, 0xEC03AAAAEFF30AF03F10000AF00000E3,
  0x00000000000001E50000000005FF0000, 0x0000000000000000AFA0000000000EFA,
  0x00000000000AFA0000005FF05FF00AFA, 0x000005FF000000000000000000000000,
  0x00000000000000000000000000000000, 0x00000000000151000000000000000000,
  0x00000000000000000000000000000000, 0x000000AF3000F5001CF0000000000000,
  0x5FF00AF05F5000A80E308FCA51105F50, 0xFA008C00000AFA05F5000AF007F8008F,
  0x808E87E7000000000000000000000000, 0x0E71FF05FC0055AFA0001000CFA00000,
  0x7FF0000AFFF000F5000003FE10000000, 0x005F50AFA05FF0CF700EF10000000000,
  0x00000000000000000000000000100001, 0xFF50005E1035517C000008FEF70000FF,
  0x50007FF008FE10000110AFA005FF800A, 0xFA0000000AFA0000003FF500000300AF,
  0xA000AFA00FF500000FF500FF501FA000, 0x0FF5000000AFFE000FFF500FFF3005F5,
  0x00EF70007FE005FF000AFF03FF1000CF, 0x800FF5005FF505FF1000010000AFA000,
  0x0AFA0000FF50CFA0003F70FF300CFF10, 0x0EC008FF10EE000EF8008F3000001EFA,
  0x00AF00E70000AF00007FC00000000000, 0x000000000000005FF000000000000000,
  0x00000AFA0000000000FF500000000000, 0xAFA000000000000000AFA000005FF000,
  0x00000000000000000000000000000000, 0x00000000000000000000000000000000,
  0xFF500000000000000000000000000000, 0x000000000000000000000000000AF700,
  0x0F5000AF00000000000005FF008F05F5, 0x07AECAFA1AFAA50005F50FA05F100000,
  0x7FE0CF1000AE00EF1001FF1155551000, 0x3A00000000000000000003F15FA00FF0,
  0x000AFA0000000AFA000005FE0005F7FF, 0x000F5000008F80000000000EA00AFC05,
  0xFC0FF500AF707A7007A7000000007000, 0x000000070000000000001FF3003E10AC,
  0xCF50E30000EC8FC0000FF50005FE00FF, 0x700000000AFA0008FF00AFA0000000AF,
  0xA000000AFC000000000AFA000AFA00FF, 0x500000FF500FF51EE10000FF5000000A,
  0xFEF105FCF500FFFE005F505FF00000FF, 0x505FF0005FF0AFA00005FF00FF5000FF,
  0x505FF1000000000AFA0000AFA0000FF5, 0x07FF0008F10AF700FFF501F7000EFA8F,
  0x30007FF13F80000008FE100AF008C000, 0x0AF0000CCF300000000000000005CFFE,
  0x5005FF3CFC10007CFFF7005CFFFFA001, 0xCFF8107FFC7008EFCAA00AFA5EFA003A,
  0xA00AA30AFA00A805FF00AA5CFE55EF80, 0x07A75EFA00018EFE5000AA58FE50005C,
  0xFEAA700AA7E505CFFF707FFC70AA300A, 0xA33AA0003A38A103A800780AA5008A0A,
  0xA3000A70AAAAA7007FA000F5000FE000, 0x00000000005FF0000000005AFACEA33F,
  0xFE50001FA7F71E50000001FFFE300003, 0x305FE0000EF50A8CA00005F000000000,
  0x00000000008C0AFA00FF5000AFA00000, 0x00EF700003EE5001EC0FF000F851000C,
  0xF57A81000007F1003FFACE10FF500AFA, 0x0AFA00AFA0000007EF0000000000EE70,
  0x000000000AF5000C50A701F30A50005F, 0x73FF1000FF5003EF505FF100000000AF,
  0xA0001FF50AFA0000000AFA000000EF70, 0x00000000AFA000AFA00FF500000FF500,
  0xFF5CE100000FF5000000AF8F708CAF50, 0x0FCEF805F50AFC00000AFA05FF0008FE,
  0x0FF500000FF50FF5005FF101FFFA5000, 0x0000AFA0000AFA0000FF501FF500EC00,
  0x7FA05FAFA05F30007FFF800000EF8EE1, 0x000003FF7000AF005F0000AF0003F1CC,
  0x0000000000000000AA57FF105FFFAEFC, 0x008FE75A803FF75EFA01EF7AF807FFC7,
  0x0AFE57FF00AFEFAFF805FF00FF50AFA0, 0x8F505FF00FFFCEFEFCFF30AFEFAFF800,
  0xEFA5EF700FFFCCFF103FF75EFA00FFFA, 0x51FF758807FFC70FF500FF51FF3008F1,
  0xAF507FF00EA07FE15F70CF8003F50AAA, 0xFFA001FA000F5000FA00000000000001,
  0xFC00000000005C0A80005EFE10005EF8, 0x0CA0350003EFFF300A70000AFA0000AF,
  0xA0A13A00005F0000000000000000000C, 0x80AFA00FF5000AFA0000008FC0005FFC,
  0x3000CE13FF000FFFF800FFECCFE10001, 0xF800007FFF700CFC05FFA07A7007A700,
  0x007EF810AFFFFFFA007EE70000001EC1, 0x0001E03E007F00A5000AF00CF8000FFF,
  0xFFFC1005FF000000000AFA0000FF50AF, 0xFFFFF500AFEAAAA00FF5000000000AFF,
  0xFFFFFA00FF500000FF500FFEFA000000, 0xFF5000000AF5FA0E8CF500FA5FF35F50,
  0xAFA00000AFA05FF558FF50FF500000FF, 0x50FFCACFF50003EFFFE700000AFA0000,
  0xAFA0000FF500AFA03F7003FF08F3FE0A, 0xF00000CFF1000007FFF7000000EFC000,
  0x0AF000F5000AF000C803F30000000000, 0x000000000FF505FF505FF11FF700000A,
  0xF800AFA08FA00FF00FF501FF100FF00A, 0xFF10AFA05FF00FF50AFA3F8005FF00FF,
  0xA05FF50FF50AFF10AFA05FE005FF00FF, 0xA00FF70AF800AFA00FFA005FF100000F,
  0xF500FF500FF50AF800EC05FA0AFF31F5, 0x00CFAEE005FE00CE00003FF3005F5000,
  0xF5000AC10015300000000FA000000000, 0x0880E300001FFF30000007E0AFFE10EF,
  0x58FC00FA0000AFA0000AFA0000003AAC, 0xFAAA000005FFF5000001F30AFA00FF50,
  0x00AFA000005FA1000157EF807F505FF0, 0x00005FF30FFC00EF7000AF10005FC8FF,
  0xA01EFFECFA000000000007EF81000355, 0x5555300007EE70000EF100005A08A01E,
  0xC00F0001F8007FE000FF8558FE505FF0, 0x00000000AFA0000FF50AFC5555100AFE,
  0xAAAA00FF5000FFFF00AFC555CFA00FF5, 0x00000FF500FFAFF500000FF5000000AF,
  0x0FF1F3FF500FA0CFC5F50AFA00000AFA, 0x05FFFFFA500FF500000FF50FFCAEF700,
  0x00005AFFFA0000AFA0000AFA0000FF50, 0x05FF18F1000FF3CA0FF0FA00000EFF70,
  0x00000CFC0000007FF30000AF000AA000, 0xAF003F100CC000000000000000038AFF,
  0x505FF000FF55FF000000FF500AFA0AFE, 0xAAFF30FF505FF000FF00AFA00AFA05FF,
  0x00FF50AFAEE0005FF00FF505FF00FF50, 0xAFA00AFA0AFA000FF50FF500AFA0FF50,
  0x0AFA00FF5001FFE81000FF500FF500FF, 0x505FE03F501FE0FAF75F1003FFF3000F,
  0xF31F70000EF800AF80000F50000EF01E, 0xFFA10C1000FA000000005FFFFFF80000,
  0xFAFE000003F33F71F85FF00EF85F5000, 0x0AFA0000AFA0000003AACFAAA0000015,
  0x551000007E00AFA00FF5000AFA00005F, 0xA000000001FF3AFFFFFFF00000CFA0EF,
  0x700AFA003F80001FF105FF300550AF70, 0x00000000007EF810003555555300018F,
  0xE70005FF000005A0AA1EAA1A80007FFF, 0xFFFF500FF50005FF13FF300000000AFA,
  0x0003FF10AFA0000000AFA000000EF800, 0x058FF00AFA000AFA00FF500000FF500F,
  0xF57FF30000FF5000000AF0AFAE0FF500, 0xFA01FFCF508FC00000CF805FF0000000,
  0xEF700001FF30FF505FF100000001AFF3, 0x000AFA0000AFA0000FF5000FF7EC0000,
  0xAF7F70AF8F500007FCFF100000AFA000, 0x001FF800000AF0005E000AF000000000,
  0x000000000000000AFEAFF505FF000FF5, 0x5FF000000FF500AFA0AFEAAAA30FF505,
  0xFF000FF00AFA00AFA05FF00FF50AFCFF, 0x3005FF00FF505FF00FF50AFA00AFA0AF,
  0xA000FF50FF500AFA0FF500AFA00FF500, 0x03CFFF800FF500FF500FF500FF5AF000,
  0xEF5F3FAAC0000CFE0000AFA8F10008FE, 0x00037F3000F50008E505701CFFC00005,
  0x30000000005F58C530000F5FF00001E7, 0x05F50FA5FF103FFEE000007FC0000CF7,
  0x0000000005F000000000000000000AA0, 0x05FC01FF0000AFA0005FE0000000000F,
  0xF535558FF500000AFA0AF700AFA00CF3, 0x0005FF000FF500000EF3000000000000,
  0x07EF810AFFFFFFA018FE700000155000, 0x001E07FF5AFFA0000CC5555AFA00FF50,
  0x000FF50EF800000000AFA000CFC00AFA, 0x0000000AFA0000008FE00005FF00AFA0,
  0x00AFA00FF500000FF500FF50AFE1000F, 0xF5000000AF07FFA0FF500FA008FFF503,
  0xFF10001FF305FF00000008FC00007FE0, 0x0FF500AFC000000000FF5000AFA0000A,
  0xFC0001FF5000AFEF700005FFF308FEF1, 0x0001FA1EFA00000AFA00000CFE000000,
  0xAF0001F300AF00000000000000000000, 0x0003FF10FF505FF001FF33FF100000FF,
  0x500CFA0AFA000000FF505FF003FF00AF, 0xA00AFA05FF00FF50AFA7FC005FF00FF5,
  0x05FF00FF50AFA00AFA08FC001FF30FF5, 0x00CF80FF500CFA00FF5000001AFF50FF,
  0x500FF501FF500AFAF8000AFCE0EEE800, 0x07FEF80005FFF80003FF300000FA000F,
  0x5000FA00000005500001550000000005, 0xE0A8000850FAFC0000AA003F71F81FF8,
  0x008FF3000001FF0000FF10000000005F, 0x00005FF0000000FF50F5000FF17FC000,
  0x0AFA000EFA5553011003FF100005FF00, 0x1001EF703FC00EF503FF00003FF301FF,
  0x111007FC00AFA00AFA0000007EF00000, 0x00000FE70000000155000000AA051005,
  0x300003F700003FF10FF50008FF305FF7, 0x0000730AFC55CFF300AFA0000000AFA0,
  0x000001EFA1005FF00AFA000AFA00FF50, 0x0000FF500FF500EFE000FF5000000AF0,
  0x1FF50FF500FA000EFF500CFA000AFC00, 0x5FF00000001FF5001EF500FF5001EF80,
  0x3500005FF1000AFA00003FF5007FF000, 0x05FFF100001FFF005FFE0000CF107FF3,
  0x0000AFA00005FF5000000AF0000C800A, 0xF000000000000000000000005FF11FF5,
  0x05FF007FE00EFA00010AFC07FFA03FF5, 0x00110FF501FFA7EFF00AFA00AFA05FF0,
  0x0FF50AFA0EF705FF00FF505FF00FF50A, 0xFA00AFA03FF107FE00FF501FF30AFC07,
  0xFFA00FF50031001FF50FF700FF71EFF5, 0x003FFF30005FFA0AFF5001FA5FF3000E,
  0xFF3000EF8000005F8000F5000FA00000, 0x000000005FF0000000008A0E5000AFFF,
  0xFE10005E1000AFFE105FFCCFEFE00000, 0x08F7007F800000000003A00005FF0000,
  0x000FF55F00005FCEE100AFFFFFF0FFFF, 0xFFA05FCAFF5000005FF005EAEFA000AF,
  0xCCFA008FC00000AFFAEF505FACFE100A, 0xFA00AFA0000000070000000000700000,
  0x00005FF0000000AC757C0000008F1000, 0x00EF70FFFFFFFF80007FFEAAFF50AFFF,
  0xFFC3000AFFFFFFFA0AFA00000003EFFA, 0xAFFF00AFA000AFA00FF500000FF500FF,
  0x5001EFA00FFFFFFFA0AF00AA00FF500F, 0xA0003FF5001CFEAEFE1005FF00000000,
  0x5FFCAFFA000FF50005FF35FFCACFF700, 0x00AFA00000AFFACFF500000FFC000000,
  0xEFA000FF80007F7000CFE0000AFA0000, 0xAFFFFFFF50AF00008C00AF0000000000,
  0x00000000000000EFEEEFE55FFEAFF300, 0x5FFEAEA03FFFEEFA008FFCCF50FF5005,
  0xFFF5FF00AFA00AFA05FF00FF50AFA03F, 0xF15FF00FF505FF00FF50AFA00AFA00AF,
  0xEAFE300FFFAEF8003FFFEEFA00FF5005, 0xFCAEFA008FFF08FFFAFF5000EFE00001,
  0xFF507FF000CE10AFC0008FC0005FFFFF, 0xA008F5000F5000CF0000000000000155,
  0x00000000031050000015F800000A5000, 0x0055100018AA50551000000EE11EE000,
  0x0000000000000018F00000005518A000, 0x003A81000355555505555553017AA830,
  0x000001550018AA5000005AA500035300, 0x00003AA830018AA70000353003FA0000,
  0x00000000000000000000000001550000, 0x00003AAA500000053000000353055555,
  0x5510000017AAA7300355551000003555, 0x5555303530000000005AAAA750035300,
  0x03530055171008FF0005510003551055, 0x55555303500000055100530000551000,
  0x05AAA5000015500000000017AAEF7500, 0x551000055315AAAA7100000353000000,
  0x38AA7100000035300000035300055100, 0x0550000155100035300003555555510A,
  0xF00003F10AF0000000000AAAAAAAA300, 0x00018A33AA11557A81000017AA83003A,
  0x8135300038AA7105510003511FF00353, 0x00353015500FF5035300353155005510,
  0x155005510353003530003AA71000FF8A, 0xA300003A81AFA005510005AAA500007A,
  0x7008A705510003530000055101550015, 0x3001551007F5000155555300AF1000F5,
  0x000CF000000000000000000000000000, 0x000000000A3000000000000000000000,
  0x0000000000001EAAE100000000000000, 0x0001A80000000000E700000000000000,
  0x00000000000000000000000000000000, 0x00000000000000000000000000000000,
  0x000000000000003F3000000000000000, 0x00000000000000000000000000000000,
  0x00000000000000000000000000000000, 0x00000000000000000000000000000000,
  0x000000000000000000000000000000FF, 0xFFFE5000000000000000000000000000,
  0x00000000000000000000000000000000, 0x00000000000000007EFFA00000000000,
  0x00000000000000000000000000000000, 0x00000000000000000000000000000000,
  0x00000000000000000000AFA7000EAAEF, 0x0000000000AAAAAAAA30000000000000,
  0x00000000000000000000000000000000, 0x0000000008301AFC0000000000000011,
  0xFF100000000000000000000000000000, 0x00000000000000000FF500000000000A,
  0xFA000000000000000000000000000000, 0x000000000000000000000000000001EE,
  0x00000000000005FF700F500CFA000000, 0x00000000000000000000000000000000,
  0x00000000000000000000000000000000, 0x00055000000000000000000038100000,
  0x00001A10000000000000000000000000, 0x00000000000000000000000000000000,
  0x00000000000000000000000000000000, 0x00075000000000000000000000000000,
  0x00000000000000000000000000000000, 0x00000000000000000000000000000000,
  0x00000000000000000000000000000000, 0x00000000000000000000355300000000,
  0x00000000000000000000000000000000, 0x00000000000000000000000000000000,
  0x00000003700000000000000000000000, 0x00000000000000000000000000000000,
  0x00000000000000000000000000000000, 0x0000000007AA70007AAAA00000000000,
  0x00000000000000000000000000000000, 0x000000000000000000000000000000FF,
  0xFFFC100000000000000FFFA000000000, 0x00000000000000000000000000000000,
  0x000000FF500000000000AFA000000000, 0x00000000000000000000000000000000,
  0x000000000000000000AF700000000000, 0x00015500A30073000000000000000000,
  0x00000000000000000000000000000000, 0x00000000000000000000000000000000,
  0x00000000000000000000000000000000, 0x00000000000000000000000000000000,
  0x00000000000000000000000000000000, 0x00000000000000000000000000000000,
  0x00000000000000000000000000000000, 0x00000000000000000000000000000000,
  0x00000000000000000000000000000000, 0x00000000000000000000000000000000,
  0x00000000000000000000000000000000, 0x00000000000000000000000000000000,
  0x00000000000000000000000000000000, 0x00000000000000000000000000000000,
  0x00000000000000000000000000000000, 0x00000000000000000000000000000000,
  0x00000000000000000000000000000000, 0x00000000000000000000000000000000,
  0x00000000000000000000000000000000, 0x00000000000000000000000000000000,
  0x00000000000000000000000000000000, 0x00000000000000000000000000000000,
  0x00000000000000000000000000000000, 0x00000000000000000000000000000000,
  0x0000000000000000FF00000000000000]

/-- `baCharset[n]`. -/
def baCharset (n : Nat) : Byte :=
  UInt8.ofNat (charsetLines.getD (n / 16) 0 / 0x100 ^ (15 - n % 16))

/-- `b1`: how bright a pixel of the bitmap is, which has two pixels in a byte. -/
def brightness (n1 : Nat) : Byte :=
  let b := baCharset (n1 / 2)
  if n1 % 2 = 0 then b >>> 4 else b &&& 0x0f

/-! ## Glyphs -/

/-- The character has a glyph. -/
def Visible (bCharacter : Byte) : Prop := 0x21 ≤ bCharacter ∧ bCharacter ≤ 0x7e

instance (bCharacter : Byte) : Decidable (Visible bCharacter) := by
  unfold Visible
  infer_instance

def glyphStart (bCharacter : Byte) : Nat := waStarts.getD (bCharacter.toNat - 0x21) 0

/-- The width of a glyph in pixels of the screen. -/
def glyphWidth (bCharacter : Byte) (fDouble : Bool) : Nat :=
  let nWidth := waStarts.getD (bCharacter.toNat - 0x20) 0 - glyphStart bCharacter
  if fDouble then nWidth * 2 else nWidth

def glyphHeight (fDouble : Bool) : Nat := if fDouble then uiPixelsY * 2 else uiPixelsY

/-- The pixel of the bitmap behind a pixel of the screen, in either direction. -/
def unscaled (fDouble : Bool) (n : Nat) : Nat := if fDouble then n / 2 else n

/-- The glyph is lit at line `y`, column `n`. -/
def Lit (bCharacter : Byte) (fDouble : Bool) (y n : Nat) : Prop :=
  brightness (glyphStart bCharacter + uiPixelsX * unscaled fDouble y + unscaled fDouble n) ≠ 0

instance (bCharacter : Byte) (fDouble : Bool) (y n : Nat) :
    Decidable (Lit bCharacter fDouble y n) := by
  unfold Lit
  infer_instance

/-- The bytes of the lit pixels, by their offsets from the glyph's top left on a screen whose
lines have `row` bytes. -/
def ink (row : Nat) (bCharacter : Byte) (fDouble : Bool) : List Nat :=
  if Visible bCharacter then
    (List.range (glyphHeight fDouble)).flatMap fun y =>
      ((List.range (glyphWidth bCharacter fDouble)).filter (Lit bCharacter fDouble y)).flatMap
        fun n => (List.range 4).map fun k => row * y + (4 * n + k)
  else []

section Ink

variable {row offset : Nat} {bCharacter : Byte} {fDouble : Bool}

theorem mem_ink_iff :
    offset ∈ ink row bCharacter fDouble ↔
      Visible bCharacter ∧ ∃ y < glyphHeight fDouble, ∃ n < glyphWidth bCharacter fDouble,
        Lit bCharacter fDouble y n ∧ ∃ k < 4, offset = row * y + (4 * n + k) := by
  unfold ink
  split
  · rename_i visible
    simp only [List.mem_flatMap, List.mem_filter, List.mem_map, List.mem_range, decide_eq_true_eq,
      visible, true_and]
    constructor
    · rintro ⟨y, lineInside, n, ⟨inside, lit⟩, k, short, same⟩
      exact ⟨y, lineInside, n, inside, lit, k, short, same.symm⟩
    · rintro ⟨y, lineInside, n, inside, lit, k, short, same⟩
      exact ⟨y, lineInside, n, ⟨inside, lit⟩, k, short, same.symm⟩
  · rename_i hidden
    simp [hidden]

theorem getD_waStarts_le (index : Nat) : waStarts.getD index 0 ≤ uiPixelsX := by
  have all : ∀ start ∈ waStarts, start ≤ uiPixelsX := by decide
  rw [List.getD_eq_getElem?_getD]
  cases found : waStarts[index]? with
  | none => exact Nat.zero_le _
  | some start => exact all start (List.mem_of_getElem? found)

theorem glyphWidth_le (bCharacter : Byte) (fDouble : Bool) :
    glyphWidth bCharacter fDouble ≤ uiPixelsX * 2 := by
  have stored := getD_waStarts_le (bCharacter.toNat - 0x20)
  unfold glyphWidth
  dsimp only
  split <;> omega

theorem glyphHeight_le (fDouble : Bool) : glyphHeight fDouble ≤ uiPixelsY * 2 := by
  cases fDouble with
  | false => exact Nat.le_mul_of_pos_right uiPixelsY Nat.two_pos
  | true => exact Nat.le_refl _

/-- All of a glyph lies close to its top left. -/
theorem ink_lt (member : offset ∈ ink row bCharacter fDouble) :
    offset < row * (uiPixelsY * 2) + 4 * (uiPixelsX * 2) := by
  obtain ⟨_, y, lineInside, n, inside, _, k, short, same⟩ := mem_ink_iff.mp member
  have width := glyphWidth_le bCharacter fDouble
  have height := glyphHeight_le fDouble
  have lines : row * y ≤ row * (uiPixelsY * 2) := Nat.mul_le_mul_left row (by omega)
  omega

end Ink

end Cromwell.Video
