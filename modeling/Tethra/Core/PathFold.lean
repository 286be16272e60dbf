import Tethra.Core.Error
import Tethra.Lib.CanonicalOrder

set_option autoImplicit false

/-! # Folding of paths (`core/src/gitsafe.rs`)

The index and the directory may hold one name in two normal forms, so paths are compared by the decompositions of their
characters. The fold does not reorder combining marks. Where the marks come out in canonical order it is canonical
equivalence, and a letter that is followed by a mark of a lower class than its own marks makes the two forms of one
name differ (`fold_iff`). -/

namespace Tethra.PathFold

open CanonicalOrder

/-! ## The fold -/

/-- `CANONICAL_DECOMPOSITION`: composed, base, mark, in the order of the first. The mark is zero where there is none. -/
def decompositionTable : List (Nat × Nat × Nat) :=
  [
    (0xC0,0x41,0x300),(0xC1,0x41,0x301),(0xC2,0x41,0x302),(0xC3,0x41,0x303),(0xC4,0x41,0x308),(0xC5,0x41,0x30A),
    (0xC7,0x43,0x327),(0xC8,0x45,0x300),(0xC9,0x45,0x301),(0xCA,0x45,0x302),(0xCB,0x45,0x308),(0xCC,0x49,0x300),
    (0xCD,0x49,0x301),(0xCE,0x49,0x302),(0xCF,0x49,0x308),(0xD1,0x4E,0x303),(0xD2,0x4F,0x300),(0xD3,0x4F,0x301),
    (0xD4,0x4F,0x302),(0xD5,0x4F,0x303),(0xD6,0x4F,0x308),(0xD9,0x55,0x300),(0xDA,0x55,0x301),(0xDB,0x55,0x302),
    (0xDC,0x55,0x308),(0xDD,0x59,0x301),(0xE0,0x61,0x300),(0xE1,0x61,0x301),(0xE2,0x61,0x302),(0xE3,0x61,0x303),
    (0xE4,0x61,0x308),(0xE5,0x61,0x30A),(0xE7,0x63,0x327),(0xE8,0x65,0x300),(0xE9,0x65,0x301),(0xEA,0x65,0x302),
    (0xEB,0x65,0x308),(0xEC,0x69,0x300),(0xED,0x69,0x301),(0xEE,0x69,0x302),(0xEF,0x69,0x308),(0xF1,0x6E,0x303),
    (0xF2,0x6F,0x300),(0xF3,0x6F,0x301),(0xF4,0x6F,0x302),(0xF5,0x6F,0x303),(0xF6,0x6F,0x308),(0xF9,0x75,0x300),
    (0xFA,0x75,0x301),(0xFB,0x75,0x302),(0xFC,0x75,0x308),(0xFD,0x79,0x301),(0xFF,0x79,0x308),(0x100,0x41,0x304),
    (0x101,0x61,0x304),(0x102,0x41,0x306),(0x103,0x61,0x306),(0x104,0x41,0x328),(0x105,0x61,0x328),(0x106,0x43,0x301),
    (0x107,0x63,0x301),(0x108,0x43,0x302),(0x109,0x63,0x302),(0x10A,0x43,0x307),(0x10B,0x63,0x307),(0x10C,0x43,0x30C),
    (0x10D,0x63,0x30C),(0x10E,0x44,0x30C),(0x10F,0x64,0x30C),(0x112,0x45,0x304),(0x113,0x65,0x304),(0x114,0x45,0x306),
    (0x115,0x65,0x306),(0x116,0x45,0x307),(0x117,0x65,0x307),(0x118,0x45,0x328),(0x119,0x65,0x328),(0x11A,0x45,0x30C),
    (0x11B,0x65,0x30C),(0x11C,0x47,0x302),(0x11D,0x67,0x302),(0x11E,0x47,0x306),(0x11F,0x67,0x306),(0x120,0x47,0x307),
    (0x121,0x67,0x307),(0x122,0x47,0x327),(0x123,0x67,0x327),(0x124,0x48,0x302),(0x125,0x68,0x302),(0x128,0x49,0x303),
    (0x129,0x69,0x303),(0x12A,0x49,0x304),(0x12B,0x69,0x304),(0x12C,0x49,0x306),(0x12D,0x69,0x306),(0x12E,0x49,0x328),
    (0x12F,0x69,0x328),(0x130,0x49,0x307),(0x134,0x4A,0x302),(0x135,0x6A,0x302),(0x136,0x4B,0x327),(0x137,0x6B,0x327),
    (0x139,0x4C,0x301),(0x13A,0x6C,0x301),(0x13B,0x4C,0x327),(0x13C,0x6C,0x327),(0x13D,0x4C,0x30C),(0x13E,0x6C,0x30C),
    (0x143,0x4E,0x301),(0x144,0x6E,0x301),(0x145,0x4E,0x327),(0x146,0x6E,0x327),(0x147,0x4E,0x30C),(0x148,0x6E,0x30C),
    (0x14C,0x4F,0x304),(0x14D,0x6F,0x304),(0x14E,0x4F,0x306),(0x14F,0x6F,0x306),(0x150,0x4F,0x30B),(0x151,0x6F,0x30B),
    (0x154,0x52,0x301),(0x155,0x72,0x301),(0x156,0x52,0x327),(0x157,0x72,0x327),(0x158,0x52,0x30C),(0x159,0x72,0x30C),
    (0x15A,0x53,0x301),(0x15B,0x73,0x301),(0x15C,0x53,0x302),(0x15D,0x73,0x302),(0x15E,0x53,0x327),(0x15F,0x73,0x327),
    (0x160,0x53,0x30C),(0x161,0x73,0x30C),(0x162,0x54,0x327),(0x163,0x74,0x327),(0x164,0x54,0x30C),(0x165,0x74,0x30C),
    (0x168,0x55,0x303),(0x169,0x75,0x303),(0x16A,0x55,0x304),(0x16B,0x75,0x304),(0x16C,0x55,0x306),(0x16D,0x75,0x306),
    (0x16E,0x55,0x30A),(0x16F,0x75,0x30A),(0x170,0x55,0x30B),(0x171,0x75,0x30B),(0x172,0x55,0x328),(0x173,0x75,0x328),
    (0x174,0x57,0x302),(0x175,0x77,0x302),(0x176,0x59,0x302),(0x177,0x79,0x302),(0x178,0x59,0x308),(0x179,0x5A,0x301),
    (0x17A,0x7A,0x301),(0x17B,0x5A,0x307),(0x17C,0x7A,0x307),(0x17D,0x5A,0x30C),(0x17E,0x7A,0x30C),(0x1A0,0x4F,0x31B),
    (0x1A1,0x6F,0x31B),(0x1AF,0x55,0x31B),(0x1B0,0x75,0x31B),(0x1CD,0x41,0x30C),(0x1CE,0x61,0x30C),(0x1CF,0x49,0x30C),
    (0x1D0,0x69,0x30C),(0x1D1,0x4F,0x30C),(0x1D2,0x6F,0x30C),(0x1D3,0x55,0x30C),(0x1D4,0x75,0x30C),(0x1D5,0xDC,0x304),
    (0x1D6,0xFC,0x304),(0x1D7,0xDC,0x301),(0x1D8,0xFC,0x301),(0x1D9,0xDC,0x30C),(0x1DA,0xFC,0x30C),(0x1DB,0xDC,0x300),
    (0x1DC,0xFC,0x300),(0x1DE,0xC4,0x304),(0x1DF,0xE4,0x304),(0x1E0,0x226,0x304),(0x1E1,0x227,0x304),(0x1E2,0xC6,0x304),
    (0x1E3,0xE6,0x304),(0x1E6,0x47,0x30C),(0x1E7,0x67,0x30C),(0x1E8,0x4B,0x30C),(0x1E9,0x6B,0x30C),(0x1EA,0x4F,0x328),
    (0x1EB,0x6F,0x328),(0x1EC,0x1EA,0x304),(0x1ED,0x1EB,0x304),(0x1EE,0x1B7,0x30C),(0x1EF,0x292,0x30C),
    (0x1F0,0x6A,0x30C),(0x1F4,0x47,0x301),(0x1F5,0x67,0x301),(0x1F8,0x4E,0x300),(0x1F9,0x6E,0x300),(0x1FA,0xC5,0x301),
    (0x1FB,0xE5,0x301),(0x1FC,0xC6,0x301),(0x1FD,0xE6,0x301),(0x1FE,0xD8,0x301),(0x1FF,0xF8,0x301),(0x200,0x41,0x30F),
    (0x201,0x61,0x30F),(0x202,0x41,0x311),(0x203,0x61,0x311),(0x204,0x45,0x30F),(0x205,0x65,0x30F),(0x206,0x45,0x311),
    (0x207,0x65,0x311),(0x208,0x49,0x30F),(0x209,0x69,0x30F),(0x20A,0x49,0x311),(0x20B,0x69,0x311),(0x20C,0x4F,0x30F),
    (0x20D,0x6F,0x30F),(0x20E,0x4F,0x311),(0x20F,0x6F,0x311),(0x210,0x52,0x30F),(0x211,0x72,0x30F),(0x212,0x52,0x311),
    (0x213,0x72,0x311),(0x214,0x55,0x30F),(0x215,0x75,0x30F),(0x216,0x55,0x311),(0x217,0x75,0x311),(0x218,0x53,0x326),
    (0x219,0x73,0x326),(0x21A,0x54,0x326),(0x21B,0x74,0x326),(0x21E,0x48,0x30C),(0x21F,0x68,0x30C),(0x226,0x41,0x307),
    (0x227,0x61,0x307),(0x228,0x45,0x327),(0x229,0x65,0x327),(0x22A,0xD6,0x304),(0x22B,0xF6,0x304),(0x22C,0xD5,0x304),
    (0x22D,0xF5,0x304),(0x22E,0x4F,0x307),(0x22F,0x6F,0x307),(0x230,0x22E,0x304),(0x231,0x22F,0x304),(0x232,0x59,0x304),
    (0x233,0x79,0x304),(0x340,0x300,0x0),(0x341,0x301,0x0),(0x343,0x313,0x0),(0x344,0x308,0x301),(0x374,0x2B9,0x0),
    (0x37E,0x3B,0x0),(0x385,0xA8,0x301),(0x386,0x391,0x301),(0x387,0xB7,0x0),(0x388,0x395,0x301),(0x389,0x397,0x301),
    (0x38A,0x399,0x301),(0x38C,0x39F,0x301),(0x38E,0x3A5,0x301),(0x38F,0x3A9,0x301),(0x390,0x3CA,0x301),
    (0x3AA,0x399,0x308),(0x3AB,0x3A5,0x308),(0x3AC,0x3B1,0x301),(0x3AD,0x3B5,0x301),(0x3AE,0x3B7,0x301),
    (0x3AF,0x3B9,0x301),(0x3B0,0x3CB,0x301),(0x3CA,0x3B9,0x308),(0x3CB,0x3C5,0x308),(0x3CC,0x3BF,0x301),
    (0x3CD,0x3C5,0x301),(0x3CE,0x3C9,0x301),(0x3D3,0x3D2,0x301),(0x3D4,0x3D2,0x308),(0x400,0x415,0x300),
    (0x401,0x415,0x308),(0x403,0x413,0x301),(0x407,0x406,0x308),(0x40C,0x41A,0x301),(0x40D,0x418,0x300),
    (0x40E,0x423,0x306),(0x419,0x418,0x306),(0x439,0x438,0x306),(0x450,0x435,0x300),(0x451,0x435,0x308),
    (0x453,0x433,0x301),(0x457,0x456,0x308),(0x45C,0x43A,0x301),(0x45D,0x438,0x300),(0x45E,0x443,0x306),
    (0x476,0x474,0x30F),(0x477,0x475,0x30F),(0x4C1,0x416,0x306),(0x4C2,0x436,0x306),(0x4D0,0x410,0x306),
    (0x4D1,0x430,0x306),(0x4D2,0x410,0x308),(0x4D3,0x430,0x308),(0x4D6,0x415,0x306),(0x4D7,0x435,0x306),
    (0x4DA,0x4D8,0x308),(0x4DB,0x4D9,0x308),(0x4DC,0x416,0x308),(0x4DD,0x436,0x308),(0x4DE,0x417,0x308),
    (0x4DF,0x437,0x308),(0x4E2,0x418,0x304),(0x4E3,0x438,0x304),(0x4E4,0x418,0x308),(0x4E5,0x438,0x308),
    (0x4E6,0x41E,0x308),(0x4E7,0x43E,0x308),(0x4EA,0x4E8,0x308),(0x4EB,0x4E9,0x308),(0x4EC,0x42D,0x308),
    (0x4ED,0x44D,0x308),(0x4EE,0x423,0x304),(0x4EF,0x443,0x304),(0x4F0,0x423,0x308),(0x4F1,0x443,0x308),
    (0x4F2,0x423,0x30B),(0x4F3,0x443,0x30B),(0x4F4,0x427,0x308),(0x4F5,0x447,0x308),(0x4F8,0x42B,0x308),
    (0x4F9,0x44B,0x308),(0x1E00,0x41,0x325),(0x1E01,0x61,0x325),(0x1E02,0x42,0x307),(0x1E03,0x62,0x307),
    (0x1E04,0x42,0x323),(0x1E05,0x62,0x323),(0x1E06,0x42,0x331),(0x1E07,0x62,0x331),(0x1E08,0xC7,0x301),
    (0x1E09,0xE7,0x301),(0x1E0A,0x44,0x307),(0x1E0B,0x64,0x307),(0x1E0C,0x44,0x323),(0x1E0D,0x64,0x323),
    (0x1E0E,0x44,0x331),(0x1E0F,0x64,0x331),(0x1E10,0x44,0x327),(0x1E11,0x64,0x327),(0x1E12,0x44,0x32D),
    (0x1E13,0x64,0x32D),(0x1E14,0x112,0x300),(0x1E15,0x113,0x300),(0x1E16,0x112,0x301),(0x1E17,0x113,0x301),
    (0x1E18,0x45,0x32D),(0x1E19,0x65,0x32D),(0x1E1A,0x45,0x330),(0x1E1B,0x65,0x330),(0x1E1C,0x228,0x306),
    (0x1E1D,0x229,0x306),(0x1E1E,0x46,0x307),(0x1E1F,0x66,0x307),(0x1E20,0x47,0x304),(0x1E21,0x67,0x304),
    (0x1E22,0x48,0x307),(0x1E23,0x68,0x307),(0x1E24,0x48,0x323),(0x1E25,0x68,0x323),(0x1E26,0x48,0x308),
    (0x1E27,0x68,0x308),(0x1E28,0x48,0x327),(0x1E29,0x68,0x327),(0x1E2A,0x48,0x32E),(0x1E2B,0x68,0x32E),
    (0x1E2C,0x49,0x330),(0x1E2D,0x69,0x330),(0x1E2E,0xCF,0x301),(0x1E2F,0xEF,0x301),(0x1E30,0x4B,0x301),
    (0x1E31,0x6B,0x301),(0x1E32,0x4B,0x323),(0x1E33,0x6B,0x323),(0x1E34,0x4B,0x331),(0x1E35,0x6B,0x331),
    (0x1E36,0x4C,0x323),(0x1E37,0x6C,0x323),(0x1E38,0x1E36,0x304),(0x1E39,0x1E37,0x304),(0x1E3A,0x4C,0x331),
    (0x1E3B,0x6C,0x331),(0x1E3C,0x4C,0x32D),(0x1E3D,0x6C,0x32D),(0x1E3E,0x4D,0x301),(0x1E3F,0x6D,0x301),
    (0x1E40,0x4D,0x307),(0x1E41,0x6D,0x307),(0x1E42,0x4D,0x323),(0x1E43,0x6D,0x323),(0x1E44,0x4E,0x307),
    (0x1E45,0x6E,0x307),(0x1E46,0x4E,0x323),(0x1E47,0x6E,0x323),(0x1E48,0x4E,0x331),(0x1E49,0x6E,0x331),
    (0x1E4A,0x4E,0x32D),(0x1E4B,0x6E,0x32D),(0x1E4C,0xD5,0x301),(0x1E4D,0xF5,0x301),(0x1E4E,0xD5,0x308),
    (0x1E4F,0xF5,0x308),(0x1E50,0x14C,0x300),(0x1E51,0x14D,0x300),(0x1E52,0x14C,0x301),(0x1E53,0x14D,0x301),
    (0x1E54,0x50,0x301),(0x1E55,0x70,0x301),(0x1E56,0x50,0x307),(0x1E57,0x70,0x307),(0x1E58,0x52,0x307),
    (0x1E59,0x72,0x307),(0x1E5A,0x52,0x323),(0x1E5B,0x72,0x323),(0x1E5C,0x1E5A,0x304),(0x1E5D,0x1E5B,0x304),
    (0x1E5E,0x52,0x331),(0x1E5F,0x72,0x331),(0x1E60,0x53,0x307),(0x1E61,0x73,0x307),(0x1E62,0x53,0x323),
    (0x1E63,0x73,0x323),(0x1E64,0x15A,0x307),(0x1E65,0x15B,0x307),(0x1E66,0x160,0x307),(0x1E67,0x161,0x307),
    (0x1E68,0x1E62,0x307),(0x1E69,0x1E63,0x307),(0x1E6A,0x54,0x307),(0x1E6B,0x74,0x307),(0x1E6C,0x54,0x323),
    (0x1E6D,0x74,0x323),(0x1E6E,0x54,0x331),(0x1E6F,0x74,0x331),(0x1E70,0x54,0x32D),(0x1E71,0x74,0x32D),
    (0x1E72,0x55,0x324),(0x1E73,0x75,0x324),(0x1E74,0x55,0x330),(0x1E75,0x75,0x330),(0x1E76,0x55,0x32D),
    (0x1E77,0x75,0x32D),(0x1E78,0x168,0x301),(0x1E79,0x169,0x301),(0x1E7A,0x16A,0x308),(0x1E7B,0x16B,0x308),
    (0x1E7C,0x56,0x303),(0x1E7D,0x76,0x303),(0x1E7E,0x56,0x323),(0x1E7F,0x76,0x323),(0x1E80,0x57,0x300),
    (0x1E81,0x77,0x300),(0x1E82,0x57,0x301),(0x1E83,0x77,0x301),(0x1E84,0x57,0x308),(0x1E85,0x77,0x308),
    (0x1E86,0x57,0x307),(0x1E87,0x77,0x307),(0x1E88,0x57,0x323),(0x1E89,0x77,0x323),(0x1E8A,0x58,0x307),
    (0x1E8B,0x78,0x307),(0x1E8C,0x58,0x308),(0x1E8D,0x78,0x308),(0x1E8E,0x59,0x307),(0x1E8F,0x79,0x307),
    (0x1E90,0x5A,0x302),(0x1E91,0x7A,0x302),(0x1E92,0x5A,0x323),(0x1E93,0x7A,0x323),(0x1E94,0x5A,0x331),
    (0x1E95,0x7A,0x331),(0x1E96,0x68,0x331),(0x1E97,0x74,0x308),(0x1E98,0x77,0x30A),(0x1E99,0x79,0x30A),
    (0x1E9B,0x17F,0x307),(0x1EA0,0x41,0x323),(0x1EA1,0x61,0x323),(0x1EA2,0x41,0x309),(0x1EA3,0x61,0x309),
    (0x1EA4,0xC2,0x301),(0x1EA5,0xE2,0x301),(0x1EA6,0xC2,0x300),(0x1EA7,0xE2,0x300),(0x1EA8,0xC2,0x309),
    (0x1EA9,0xE2,0x309),(0x1EAA,0xC2,0x303),(0x1EAB,0xE2,0x303),(0x1EAC,0x1EA0,0x302),(0x1EAD,0x1EA1,0x302),
    (0x1EAE,0x102,0x301),(0x1EAF,0x103,0x301),(0x1EB0,0x102,0x300),(0x1EB1,0x103,0x300),(0x1EB2,0x102,0x309),
    (0x1EB3,0x103,0x309),(0x1EB4,0x102,0x303),(0x1EB5,0x103,0x303),(0x1EB6,0x1EA0,0x306),(0x1EB7,0x1EA1,0x306),
    (0x1EB8,0x45,0x323),(0x1EB9,0x65,0x323),(0x1EBA,0x45,0x309),(0x1EBB,0x65,0x309),(0x1EBC,0x45,0x303),
    (0x1EBD,0x65,0x303),(0x1EBE,0xCA,0x301),(0x1EBF,0xEA,0x301),(0x1EC0,0xCA,0x300),(0x1EC1,0xEA,0x300),
    (0x1EC2,0xCA,0x309),(0x1EC3,0xEA,0x309),(0x1EC4,0xCA,0x303),(0x1EC5,0xEA,0x303),(0x1EC6,0x1EB8,0x302),
    (0x1EC7,0x1EB9,0x302),(0x1EC8,0x49,0x309),(0x1EC9,0x69,0x309),(0x1ECA,0x49,0x323),(0x1ECB,0x69,0x323),
    (0x1ECC,0x4F,0x323),(0x1ECD,0x6F,0x323),(0x1ECE,0x4F,0x309),(0x1ECF,0x6F,0x309),(0x1ED0,0xD4,0x301),
    (0x1ED1,0xF4,0x301),(0x1ED2,0xD4,0x300),(0x1ED3,0xF4,0x300),(0x1ED4,0xD4,0x309),(0x1ED5,0xF4,0x309),
    (0x1ED6,0xD4,0x303),(0x1ED7,0xF4,0x303),(0x1ED8,0x1ECC,0x302),(0x1ED9,0x1ECD,0x302),(0x1EDA,0x1A0,0x301),
    (0x1EDB,0x1A1,0x301),(0x1EDC,0x1A0,0x300),(0x1EDD,0x1A1,0x300),(0x1EDE,0x1A0,0x309),(0x1EDF,0x1A1,0x309),
    (0x1EE0,0x1A0,0x303),(0x1EE1,0x1A1,0x303),(0x1EE2,0x1A0,0x323),(0x1EE3,0x1A1,0x323),(0x1EE4,0x55,0x323),
    (0x1EE5,0x75,0x323),(0x1EE6,0x55,0x309),(0x1EE7,0x75,0x309),(0x1EE8,0x1AF,0x301),(0x1EE9,0x1B0,0x301),
    (0x1EEA,0x1AF,0x300),(0x1EEB,0x1B0,0x300),(0x1EEC,0x1AF,0x309),(0x1EED,0x1B0,0x309),(0x1EEE,0x1AF,0x303),
    (0x1EEF,0x1B0,0x303),(0x1EF0,0x1AF,0x323),(0x1EF1,0x1B0,0x323),(0x1EF2,0x59,0x300),(0x1EF3,0x79,0x300),
    (0x1EF4,0x59,0x323),(0x1EF5,0x79,0x323),(0x1EF6,0x59,0x309),(0x1EF7,0x79,0x309),(0x1EF8,0x59,0x303),
    (0x1EF9,0x79,0x303)
  ]

def hangulSBase : Nat := 0xAC00

def hangulLBase : Nat := 0x1100

def hangulVBase : Nat := 0x1161

def hangulTBase : Nat := 0x11A7

def hangulTCount : Nat := 28

def hangulNCount : Nat := 21 * hangulTCount

def hangulSCount : Nat := 19 * hangulNCount

def maxDecompositionDepth : Nat := 4

/-- `char::from_u32`. -/
def charFromU32 (n : Nat) : Option Char := if n.isValidChar then some (Char.ofNat n) else none

/-- The letters of a Hangul syllable. -/
def hangul (c : Char) : Option Str :=
  if hangulSBase ≤ c.toNat ∧ c.toNat - hangulSBase < hangulSCount then
    let index := c.toNat - hangulSBase
    match charFromU32 (hangulLBase + index / hangulNCount),
      charFromU32 (hangulVBase + index % hangulNCount / hangulTCount) with
    | some lead, some vowel =>
        some ([lead, vowel] ++
          if index % hangulTCount = 0 then [] else (charFromU32 (hangulTBase + index % hangulTCount)).toList)
    | _, _ => none
  else none

/-- `push_decomposed`: what is pushed. -/
def pushDecomposed : Nat → Char → Str
  | 0, c => [c]
  | depth + 1, c =>
      match hangul c with
      | some letters => letters
      | none =>
          -- The keys are distinct and in order, so the binary search finds the one that is there.
          match decompositionTable.find? fun entry => entry.1 = c.toNat with
          | none => [c]
          | some (_, base, mark) =>
              match charFromU32 base with
              | none => [c]
              | some base =>
                  pushDecomposed depth base ++ if mark = 0 then [] else (charFromU32 mark).toList

/-- `canonical_decomposition`. -/
def canonicalDecomposition (s : Str) : Str := s.flatMap (pushDecomposed maxDecompositionDepth)

/-! ## A decomposition is decomposed -/

/-- What a character folds to. -/
def foldChar (c : Char) : Str := pushDecomposed maxDecompositionDepth c

/-- Neither the table nor the arithmetic says anything about it. -/
def Plain (c : Char) : Prop := hangul c = none ∧ (decompositionTable.find? fun entry => entry.1 = c.toNat) = none

theorem pushDecomposed_of_plain {c : Char} (h : Plain c) (depth : Nat) : pushDecomposed depth c = [c] := by
  cases depth with
  | zero => rfl
  | succ depth => rw [pushDecomposed, h.1, h.2]

/-- Numbers as the bits of one: a set that is looked up in one step. -/
def bitsOf (ns : List Nat) : Nat := ns.foldr (fun n bits => bits ||| 2 ^ n) 0

theorem testBit_bitsOf (ns : List Nat) (n : Nat) : (bitsOf ns).testBit n = true ↔ n ∈ ns := by
  induction ns with
  | nil => simp [bitsOf]
  | cons m ns ih =>
      rw [bitsOf, List.foldr_cons, ← bitsOf, Nat.testBit_or, Bool.or_eq_true, ih, Nat.testBit_two_pow,
        decide_eq_true_eq, List.mem_cons, or_comm, eq_comm]

def keyBits : Nat := bitsOf (decompositionTable.map Prod.fst)

/-- The keys whose base is a key again. -/
def chainedBits : Nat :=
  bitsOf ((decompositionTable.filter fun entry => keyBits.testBit entry.2.1).map Prod.fst)

/-- No mark is a key, a base that is a key has a base that is none, and no Hangul letter is a key. -/
theorem table_bits : (decompositionTable.all fun entry =>
    (decide (entry.1 < 0x1100 ∨ 0x1200 ≤ entry.1) && decide (entry.2.1 < 0x2000)) &&
      (decide (entry.2.2 < 0x2000) && !keyBits.testBit entry.2.2 && !chainedBits.testBit entry.2.1)) = true := by
  decide +kernel

theorem table_entry {entry : Nat × Nat × Nat} (h : entry ∈ decompositionTable) :
    ((entry.1 < 0x1100 ∨ 0x1200 ≤ entry.1) ∧ entry.2.1 < 0x2000) ∧
      (entry.2.2 < 0x2000 ∧ keyBits.testBit entry.2.2 = false) ∧ chainedBits.testBit entry.2.1 = false := by
  have hbits := List.all_eq_true.1 table_bits entry h
  simpa only [Bool.and_eq_true, decide_eq_true_eq, Bool.not_eq_true'] using hbits

theorem charFromU32_eq {n : Nat} {c : Char} (h : charFromU32 n = some c) : c.toNat = n := by
  unfold charFromU32 at h
  split_ifs at h with hvalid
  obtain rfl := Option.some.inj h
  rw [Char.toNat_ofNat, if_pos hvalid]

theorem charFromU32_of_lt {n : Nat} (h : n < 0x2000) : ∃ c, charFromU32 n = some c :=
  ⟨Char.ofNat n, if_pos (.inl (by omega))⟩

theorem hangul_of_lt {c : Char} (h : c.toNat < hangulSBase) : hangul c = none := by
  rw [hangul, if_neg]
  omega

theorem plain_of_not_key {c : Char} (hc : c.toNat < 0x2000) (hkey : keyBits.testBit c.toNat = false) : Plain c := by
  refine ⟨hangul_of_lt (hc.trans (by decide)), List.find?_eq_none.2 fun entry hentry heq => ?_⟩
  have hmem : keyBits.testBit c.toNat = true :=
    (testBit_bitsOf _ _).2 (of_decide_eq_true heq ▸ List.mem_map_of_mem hentry)
  rw [hkey] at hmem
  cases hmem

theorem plain_of_jamo {c : Char} (hlow : 0x1100 ≤ c.toNat) (hhigh : c.toNat < 0x1200) : Plain c := by
  refine plain_of_not_key (by omega) (Bool.eq_false_iff.2 fun hkey => ?_)
  obtain ⟨entry, hentry, heq⟩ := List.mem_map.1 ((testBit_bitsOf _ _).1 hkey)
  have := (table_entry hentry).1.1
  omega

section Table

variable {entry : Nat × Nat × Nat} {base mark c d : Char}

theorem plain_of_mark (h : entry ∈ decompositionTable) (hmark : charFromU32 entry.2.2 = some mark) : Plain mark := by
  obtain ⟨-, ⟨hsmall, hkey⟩, -⟩ := table_entry h
  rw [← charFromU32_eq hmark] at hsmall hkey
  exact plain_of_not_key hsmall hkey

/-- What is pushed: a plain character itself, else what an entry has for it. -/
theorem mem_pushDecomposed {depth : Nat} (hhangul : hangul base = none) (hc : c ∈ pushDecomposed (depth + 1) base) :
    (c = base ∧ Plain base) ∨ ∃ entry ∈ decompositionTable, entry.1 = base.toNat ∧
      ((∃ next, charFromU32 entry.2.1 = some next ∧ c ∈ pushDecomposed depth next) ∨
        charFromU32 entry.2.2 = some c) := by
  rw [pushDecomposed, hhangul] at hc
  cases hfind : decompositionTable.find? fun entry => entry.1 = base.toNat with
  | none =>
      rw [hfind] at hc
      exact .inl ⟨List.mem_singleton.1 hc, hhangul, hfind⟩
  | some entry =>
      rw [hfind] at hc
      have hentry := List.mem_of_find?_eq_some hfind
      obtain ⟨next, hnext⟩ := charFromU32_of_lt (table_entry hentry).1.2
      simp only [hnext] at hc
      refine .inr ⟨entry, hentry, by simpa using List.find?_some hfind, ?_⟩
      obtain hpushed | hmark := List.mem_append.1 hc
      · exact .inl ⟨next, hnext, hpushed⟩
      · split_ifs at hmark
        · cases hmark
        · exact .inr (Option.mem_toList.1 hmark)

theorem plain_of_base (h : entry ∈ decompositionTable) (hbase : charFromU32 entry.2.1 = some base)
    (hc : c ∈ pushDecomposed 3 base) : Plain c := by
  obtain ⟨⟨-, hsmall⟩, -, hchained⟩ := table_entry h
  rw [← charFromU32_eq hbase] at hsmall hchained
  obtain ⟨rfl, hplain⟩ | ⟨entry', hentry', hkey, ⟨next, hnext, hpushed⟩ | hmark⟩ :=
    mem_pushDecomposed (hangul_of_lt (hsmall.trans (by decide))) hc
  · exact hplain
  · -- The base is a key, so the base of its own entry is none.
    have hsmall' := (table_entry hentry').1.2
    have hnot : keyBits.testBit entry'.2.1 = false := by
      refine Bool.eq_false_iff.2 fun htrue => ?_
      have hmem : chainedBits.testBit base.toNat = true := by
        rw [← hkey]
        exact (testBit_bitsOf _ _).2 (List.mem_map_of_mem (List.mem_filter.2 ⟨hentry', htrue⟩))
      rw [hchained] at hmem
      cases hmem
    rw [← charFromU32_eq hnext] at hsmall' hnot
    have hplain := plain_of_not_key hsmall' hnot
    rw [pushDecomposed_of_plain hplain] at hpushed
    rwa [List.mem_singleton.1 hpushed]
  · exact plain_of_mark hentry' hmark

theorem plain_of_hangul {letters : Str} (h : hangul c = some letters) (hd : d ∈ letters) : Plain d := by
  unfold hangul at h
  split_ifs at h with hrange
  dsimp only at h
  obtain ⟨index, hindex⟩ : ∃ index, c.toNat - hangulSBase = index := ⟨_, rfl⟩
  rw [hindex] at h hrange
  have hcounts : hangulTCount = 28 ∧ hangulNCount = 588 ∧ hangulSCount = 11172 := by decide
  have hbases : hangulLBase = 0x1100 ∧ hangulVBase = 0x1161 ∧ hangulTBase = 0x11A7 := by decide
  split at h
  · rename_i lead vowel hlead hvowel
    obtain rfl := Option.some.inj h
    have hlead := charFromU32_eq hlead
    have hvowel := charFromU32_eq hvowel
    rw [hcounts.2.1, hbases.1] at hlead
    rw [hcounts.1, hcounts.2.1, hbases.2.1] at hvowel
    rw [hcounts.2.2] at hrange
    obtain rfl | rfl | htrail : d = lead ∨ d = vowel ∨ _ := by simpa only [List.mem_append, List.mem_cons,
      List.not_mem_nil, or_false, or_assoc] using hd
    · exact plain_of_jamo (by omega) (by omega)
    · exact plain_of_jamo (by omega) (by omega)
    · split_ifs at htrail
      · cases htrail
      · have htrail := charFromU32_eq (Option.mem_toList.1 htrail)
        rw [hcounts.1, hbases.2.2] at htrail
        exact plain_of_jamo (by omega) (by omega)
  · cases h

/-- What a character is decomposed to is not decomposed further. -/
theorem plain_of_mem_foldChar (h : d ∈ foldChar c) : Plain d := by
  cases hhangul : hangul c with
  | some letters =>
      rw [foldChar, maxDecompositionDepth, pushDecomposed, hhangul] at h
      exact plain_of_hangul hhangul h
  | none =>
      obtain ⟨rfl, hplain⟩ | ⟨entry, hentry, -, ⟨next, hnext, hpushed⟩ | hmark⟩ := mem_pushDecomposed hhangul h
      · exact hplain
      · exact plain_of_base hentry hnext hpushed
      · exact plain_of_mark hentry hmark

theorem foldChar_of_mem (h : d ∈ foldChar c) : foldChar d = [d] :=
  pushDecomposed_of_plain (plain_of_mem_foldChar h) _

end Table

theorem flatMap_of_decomposed {f : Char → Str} {s : Str} (h : ∀ c ∈ s, f c = [c]) : s.flatMap f = s := by
  induction s with
  | nil => rfl
  | cons c s ih =>
      rw [List.flatMap_cons, h c List.mem_cons_self, ih fun d hd => h d (List.mem_cons_of_mem _ hd)]
      rfl

/-- Folding twice is folding once. -/
theorem canonicalDecomposition_idem (s : Str) :
    canonicalDecomposition (canonicalDecomposition s) = canonicalDecomposition s := by
  refine flatMap_of_decomposed fun d hd => ?_
  obtain ⟨c, -, hc⟩ := List.mem_flatMap.1 hd
  exact foldChar_of_mem hc

/-! ## Normal forms -/

/-- Unicode's combining classes, decompositions of characters, and composition of a decomposed text. -/
structure Unicode where
  ccc : Char → Nat
  decompose : Char → Str
  compose : Str → Str
  decomposed : ∀ c, ∀ d ∈ decompose c, decompose d = [d]

section Normal

variable (u : Unicode) (s t : Str)

def Unicode.decomposition : Str := s.flatMap u.decompose

def Unicode.nfd : Str := reorder u.ccc (u.decomposition s)

def Unicode.nfc : Str := u.compose (u.nfd s)

def Unicode.Equivalent : Prop := u.nfd s = u.nfd t

/-- A text in one of the canonical normal forms. -/
def Unicode.Normal : Prop := u.nfc s = s ∨ u.nfd s = s

end Normal

/-- The scripts that the fold covers: those of the table, and Hangul. -/
def Covered (c : Char) : Prop :=
  c.toNat ≤ 0x4FF ∨ (0x1E00 ≤ c.toNat ∧ c.toNat ≤ 0x1EFF) ∨ (0x1100 ≤ c.toNat ∧ c.toNat ≤ 0x11FF) ∨
    (0xAC00 ≤ c.toNat ∧ c.toNat ≤ 0xD7A3)

section Fold

variable {u : Unicode} {s t : Str}

/-- On covered scripts the fold is Unicode's decomposition before reordering. -/
theorem canonicalDecomposition_eq (hfold : ∀ c, Covered c → u.decompose c = foldChar c) (hs : ∀ c ∈ s, Covered c) :
    canonicalDecomposition s = u.decomposition s :=
  List.flatMap_congr fun c hc => (hfold c (hs c hc)).symm

theorem decomposition_of_nfd (h : u.nfd s = s) : u.decomposition s = s := by
  refine flatMap_of_decomposed fun d hd => ?_
  rw [← h, Unicode.nfd, mem_reorder] at hd
  obtain ⟨c, -, hc⟩ := List.mem_flatMap.1 hd
  exact u.decomposed c d hc

/-- A text in NFD is in canonical order. -/
theorem ordered_of_nfd (h : u.nfd s = s) : Ordered u.ccc (u.decomposition s) := by
  rw [decomposition_of_nfd h, ← h]
  exact ordered_reorder _

/-- Texts in the same normal form are equivalent only when they are equal. -/
theorem eq_or_nfd (hs : u.Normal s) (ht : u.Normal t) (h : u.Equivalent s t) : s = t ∨ u.nfd s = s ∨ u.nfd t = t := by
  obtain hs | hs := hs
  · obtain ht | ht := ht
    · left
      rw [← hs, ← ht, Unicode.nfc, Unicode.nfc, h]
    · exact .inr (.inr ht)
  · exact .inr (.inl hs)

/-- For texts in a normal form the fold is canonical equivalence exactly when, if they are equivalent, they are equal
or the marks of their characters come in canonical order as they are. -/
theorem fold_iff (hfold : ∀ c, Covered c → u.decompose c = foldChar c) (hs : ∀ c ∈ s, Covered c)
    (ht : ∀ c ∈ t, Covered c) (hnormal : u.Normal s) (hnormal' : u.Normal t) :
    (canonicalDecomposition s = canonicalDecomposition t ↔ u.Equivalent s t) ↔
      (u.Equivalent s t → s = t ∨ (Ordered u.ccc (u.decomposition s) ∧ Ordered u.ccc (u.decomposition t))) := by
  rw [canonicalDecomposition_eq hfold hs, canonicalDecomposition_eq hfold ht]
  constructor
  · intro hclaim hequivalent
    -- One of the two is ordered as it stands, and the fold makes the other one equal to it.
    have hsame := hclaim.2 hequivalent
    obtain heq | hnfd | hnfd := eq_or_nfd hnormal hnormal' hequivalent
    · exact .inl heq
    · have hordered := ordered_of_nfd hnfd
      exact .inr ⟨hordered, hsame ▸ hordered⟩
    · have hordered := ordered_of_nfd hnfd
      exact .inr ⟨hsame ▸ hordered, hordered⟩
  · intro hcondition
    refine ⟨fun hsame => ?_, fun hequivalent => ?_⟩
    · rw [Unicode.Equivalent, Unicode.nfd, Unicode.nfd, hsame]
    · obtain rfl | ⟨hordered, hordered'⟩ := hcondition hequivalent
      · rfl
      · calc u.decomposition s = u.nfd s := (reorder_eq_self_iff.2 hordered).symm
          _ = u.nfd t := hequivalent
          _ = u.decomposition t := reorder_eq_self_iff.2 hordered'

end Fold

/-- Unicode on the letters `a` and `e` with an acute, and a grave below. -/
def acuteUnicode : Unicode where
  ccc c := if c = '\u0301' then 230 else if c = '\u0316' then 220 else 0
  decompose := foldChar
  compose t :=
    if t = ['a', '\u0316', '\u0301'] then ['\u00e1', '\u0316']
    else if t = ['e', '\u0301'] then ['\u00e9']
    else t
  decomposed _ _ h := foldChar_of_mem h

theorem fold_iff_acute :
    canonicalDecomposition ['\u00e9'] = canonicalDecomposition ['e', '\u0301'] ↔
      acuteUnicode.Equivalent ['\u00e9'] ['e', '\u0301'] := by
  refine (fold_iff (fun _ _ => rfl) ?_ ?_ (.inl (by decide +kernel)) (.inr (by decide +kernel))).2
    fun _ => .inr ⟨?_, ?_⟩
  · simp only [List.mem_singleton]
    rintro c rfl
    exact .inl (by decide)
  · simp only [List.mem_cons, List.not_mem_nil, or_false]
    rintro c (rfl | rfl)
    · exact .inl (by decide)
    · exact .inl (by decide)
  · exact reorder_eq_self_iff.1 (by decide +kernel)
  · exact reorder_eq_self_iff.1 (by decide +kernel)

/-- An accented letter with a mark below, in NFC and in NFD: one text, and the fold tells them apart. -/
theorem mark_below_missed :
    ∃ (u : Unicode) (s t : Str), (∀ c, Covered c → u.decompose c = foldChar c) ∧ (∀ c ∈ s, Covered c) ∧
      (∀ c ∈ t, Covered c) ∧ u.nfc s = s ∧ u.nfd t = t ∧ u.Equivalent s t ∧
      canonicalDecomposition s ≠ canonicalDecomposition t := by
  refine ⟨acuteUnicode, ['\u00e1', '\u0316'], ['a', '\u0316', '\u0301'], fun _ _ => rfl, ?_, ?_,
    by decide +kernel, by decide +kernel, by unfold Unicode.Equivalent; decide +kernel, by decide +kernel⟩
  · simp only [List.mem_cons, List.not_mem_nil, or_false]
    rintro c (rfl | rfl)
    · exact .inl (by decide)
    · exact .inl (by decide)
  · simp only [List.mem_cons, List.not_mem_nil, or_false]
    rintro c (rfl | rfl | rfl)
    · exact .inl (by decide)
    · exact .inl (by decide)
    · exact .inl (by decide)

end Tethra.PathFold
