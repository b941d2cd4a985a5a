import OrbiterSdk.Core.Genesis
import OrbiterSdk.Core.Transaction

namespace OrbiterSdk.Recorded

/-!
# Recorded values of the cryptographic libraries

`Recorded.crypto` answers with what Keccak-256 and secp256k1 compute on the inputs of a few
short runs of a fresh node, so that such runs can be evaluated: block 1 of the chain in nine
variants (`block`), signed by the validators of `rdPoS::initializeBlockchain`, an empty
block 2, and the addresses and function selectors of the first deployed contracts.
Transactions built with `call` are not signed; `perform` executes them without a block.
-/

/-- Inputs with their lengths, and Keccak-256 of them. -/
def keccak : List (Nat × Nat × Nat) :=
  [(0x00000000000000000000000000000000000000000000000000000000000000000000000000000000000000000000000000000000000000000000000000000000000000000000000000000000000000000000000000000000000000000000000000000000000000000000000000000000000000000000000000000000000000000005e272958195800000000000000000, 144, 0x41e91bf0583c02e595db9f3896fd81b09a27a7b821595da7f7fc713cdaedc5c1),
    (0x0000000000000000000000000000000000000000000000000000000000000000, 32, 0x290decd9548b62a8d60345a988386fc84ba6bc95484008f6362f93160ef3e563),
    (0x290decd9548b62a8d60345a988386fc84ba6bc95484008f6362f93160ef3e563, 32, 0x510e4e770828ddbf7f7b00ab00a9f6adaf81c0dc9cc85f1f8249c256942d61d9),
    (0x510e4e770828ddbf7f7b00ab00a9f6adaf81c0dc9cc85f1f8249c256942d61d9, 32, 0x356e5a2cc1eba076e650ac7473fccc37952b46bc2e419a200cec0c451dce2336),
    (0x356e5a2cc1eba076e650ac7473fccc37952b46bc2e419a200cec0c451dce2336, 32, 0xb903bd7696740696b2b18bd1096a2873bb8ad0c2e7f25b00a0431014edb3f539),
    (0xb903bd7696740696b2b18bd1096a2873bb8ad0c2e7f25b00a0431014edb3f539, 32, 0xf2e59013a0a379837166b59f871b20a8a0d101d1c355ea85d35329360e69c000),
    (0x3205c2720e78c550b053d387b10fd503705b778aafe52276e0c75c3f08491405ad99da30f8efbc3d65469b2b6b7c91dc34a78a055c8cdc21f5816578b5a2e8cf, 64, 0xf9b6d02cb00f928ae22460db795083c42583842774febc21abb6df09e784fce5),
    (0x1111111111111111111111111111111111111111111111111111111111111111, 32, 0xb569321de72d0af89c2fb48a484de3fc9343f31600ae1f3e13d633cb48cbf816),
    (0x2222222222222222222222222222222222222222222222222222222222222222, 32, 0xc4bd59e1394781d1c7bf20a2c0b30c2acc9fbdd52dc5e0d76917de4034ebdf59),
    (0x3333333333333333333333333333333333333333333333333333333333333333, 32, 0x02cc96397d444c8ebdd3c75f2c53fc945bed8aab1e8da3f22ecca96cd45f8c57),
    (0x4444444444444444444444444444444444444444444444444444444444444444, 32, 0x4033fb2e6fa5cf816f87a9a40e8ce681fb6d8aa53c5302e72b80f654141a0e65),
    (0x02f874821f9080843b9aca00843b9aca00825208947588b0f553d1910266089c58822e1120db47e572880de0b6b3a764000080c001a05feac7ccb515ba01a6f7f8300d2f3dcdb1b1158115b26bf0c99c1584a1f31183a06de8b6d965880b278e57868715e65231af68cf80072789efd3b7d0bc6847b9d1, 119, 0xaac204cc5876c35415b06a3bc1d02fc0d8cadf6161ae2eeea760a963dc62c0b9),
    (0xaac204cc5876c35415b06a3bc1d02fc0d8cadf6161ae2eeea760a963dc62c0b9, 32, 0xdf33f3f84813933ee3490848fef33d9bcaa139189af18432a4b6352746c532b7),
    (0xf86ba4cfffe746b569321de72d0af89c2fb48a484de3fc9343f31600ae1f3e13d633cb48cbf81601823f44a0b3376ea8e7366adf587b98eb95b4b2d53bcb3e8855b5bd9c00474dca25eb9f40a013bc875823277ba7f9442f2b31f55725299e12ff95f7823b1e0965009b361b50, 109, 0x1bbe429da196316171cecb9b2de9450a696d8224ea28e462fc0de7250719f7f8),
    (0xf86ba4cfffe746c4bd59e1394781d1c7bf20a2c0b30c2acc9fbdd52dc5e0d76917de4034ebdf5901823f44a06938bf2f3f3b49f902cf260fa8ec62bfe4bdfa846893a5245f7c5cd65d6efa28a039762364e002d7ef08e2e3454917401ad1f6e800f7a36a4b28796bb80c76e8fa, 109, 0x3ed01dac4a961ca597c5ce40d49d89915f1fb3a73e758069e36cd4efc455a958),
    (0xf86ba4cfffe74602cc96397d444c8ebdd3c75f2c53fc945bed8aab1e8da3f22ecca96cd45f8c5701823f44a033363df7ca25c53f253035be0bb46dd552dc5496295c7ca5109ac0db66b86ce1a019d318685b55741066073683d4bfc7f144decd850a491c998411f7f9ad8b891b, 109, 0x248c86e8917f213c7c50026b71640b93f8e4a79f0c285118e0827e4535221ed3),
    (0xf86ba4cfffe7464033fb2e6fa5cf816f87a9a40e8ce681fb6d8aa53c5302e72b80f654141a0e6501823f43a004ffcd9bfeb6e8ba69cfe845a3cc9854029c907039bf664e8a3070a46c8aef45a015e95009160f08a0e6d83387ad7a99b8d78d691bb98e22d711a9bdee133d59b8, 109, 0x777dd9c485cd671306bd5f8ef6acd63a01832b8a274eb9cc2a5754a39e9c95c4),
    (0xf86ba46fc5a2d6111111111111111111111111111111111111111111111111111111111111111101823f43a06f42ffbb8ee7fd78a0acd6fd373a1b21abd049641da663fc6716b53db2934edfa05f4c83b03ddff978dd0acf27d58c9e388d58791bb3c47c2f45f11649157d051b, 109, 0x3a076b523638d492264a5390283d891fe52bf8151fa6e2fec002e7d58813cdc9),
    (0xf86ba46fc5a2d6222222222222222222222222222222222222222222222222222222222222222201823f43a0681b782bf03dd96959b088f6dbd47cb43dc67ce0d14eb92100407e25809ab5eba020629b10eb943d11a85c124fd96319f376aed3eee6bca5062ad313a5b1a88bd7, 109, 0x37e54eb6eeea4e2fa834240e845751dfef63229c5d3e64c085d1d38fb6480ddd),
    (0xf86ba46fc5a2d6333333333333333333333333333333333333333333333333333333333333333301823f44a087c9cdb6d3885ea20a2274c906bca6f35d8f1072c00e0a0ae1aa4fb305d8887ea05dbef01c6ce5bcbd476d7ab38a6f2943fa68dd0911850b5902336ea9da0d7b04, 109, 0x5c5e6cb8bb98e0d914283e5e5cc356765ec40001ce7e0982730f50d81b268a19),
    (0xf86ba46fc5a2d6444444444444444444444444444444444444444444444444444444444444444401823f43a05ee99e1a10351f0a6d185a2650c209c1a85aa03d321bf36b2591a2471abd1e87a063797b7d46ad2262e343016b07895175ca3d5cb2b1e7795419c392f7c9a38e53, 109, 0x779d4466e30857b63c9196abbd897e6591964ede654cd8a8723f291c07d47d23),
    (0x1bbe429da196316171cecb9b2de9450a696d8224ea28e462fc0de7250719f7f8, 32, 0x854accf871b90844c8b71bcd60c1ab6b6747c6bc3b9ca776dc366cdd658969fa),
    (0x3ed01dac4a961ca597c5ce40d49d89915f1fb3a73e758069e36cd4efc455a958, 32, 0x729b117d36235ef3df549d719b09b798d1d2d99e281dd35bfbe42521b95428e6),
    (0x248c86e8917f213c7c50026b71640b93f8e4a79f0c285118e0827e4535221ed3, 32, 0xf5b3f0ebddc4a091f95f7f927e53dc0fc9a51c0f34863d697c7c0c06f7aea3fc),
    (0x777dd9c485cd671306bd5f8ef6acd63a01832b8a274eb9cc2a5754a39e9c95c4, 32, 0xf0e1072a06d47d8c9fc5af7bb2d755dcfe170f1ac11e99d29b800946be1845a0),
    (0x3a076b523638d492264a5390283d891fe52bf8151fa6e2fec002e7d58813cdc9, 32, 0x610253b10a0fccf81f0932cb3cab25f320e518e01f1de317a051a7acefe16a20),
    (0x37e54eb6eeea4e2fa834240e845751dfef63229c5d3e64c085d1d38fb6480ddd, 32, 0xba26034cb82785dbaf8d466b4e47ec2c5f0f146cdbac0221452e5fe3a3d12431),
    (0x5c5e6cb8bb98e0d914283e5e5cc356765ec40001ce7e0982730f50d81b268a19, 32, 0xfd7bacf81c382b903a4de46ea69e4842a8d26d2a5263bdb2a0f15b43c5a254ae),
    (0x779d4466e30857b63c9196abbd897e6591964ede654cd8a8723f291c07d47d23, 32, 0xea5f8cf6f25ef871285d892e43b2a0b26937c3806dfe6f8d4b1c37fbfcdaa4c6),
    (0x729b117d36235ef3df549d719b09b798d1d2d99e281dd35bfbe42521b95428e6854accf871b90844c8b71bcd60c1ab6b6747c6bc3b9ca776dc366cdd658969fa, 64, 0xda843a2f257d4dd42720099c23f3d285c6fccae18a3eefa6c5e5bcdd93da63f4),
    (0xf0e1072a06d47d8c9fc5af7bb2d755dcfe170f1ac11e99d29b800946be1845a0f5b3f0ebddc4a091f95f7f927e53dc0fc9a51c0f34863d697c7c0c06f7aea3fc, 64, 0x94fe5e122e505446e383147711b59144d3a83965bded66cc5f2edc5a2634010f),
    (0x610253b10a0fccf81f0932cb3cab25f320e518e01f1de317a051a7acefe16a20ba26034cb82785dbaf8d466b4e47ec2c5f0f146cdbac0221452e5fe3a3d12431, 64, 0x9a74f57a0b2853292045c8f4890ae448d79ab2b6cc178adeb0d2ea4227e185ee),
    (0xea5f8cf6f25ef871285d892e43b2a0b26937c3806dfe6f8d4b1c37fbfcdaa4c6fd7bacf81c382b903a4de46ea69e4842a8d26d2a5263bdb2a0f15b43c5a254ae, 64, 0xf9717d44c62326fc0d2fd6d7bb2dd2d1e815997bdcde9d2cc6c85774987e675e),
    (0x94fe5e122e505446e383147711b59144d3a83965bded66cc5f2edc5a2634010fda843a2f257d4dd42720099c23f3d285c6fccae18a3eefa6c5e5bcdd93da63f4, 64, 0x36486eb4cd310637d545990d1c2bc3f7bbe5e1c8bccdc370615c412df1b385ea),
    (0x9a74f57a0b2853292045c8f4890ae448d79ab2b6cc178adeb0d2ea4227e185eef9717d44c62326fc0d2fd6d7bb2dd2d1e815997bdcde9d2cc6c85774987e675e, 64, 0x804e2262b4bf4959a20d734b8e0716ba5fe30b1b12e7cd3c562e72e5b6e53dec),
    (0x36486eb4cd310637d545990d1c2bc3f7bbe5e1c8bccdc370615c412df1b385ea804e2262b4bf4959a20d734b8e0716ba5fe30b1b12e7cd3c562e72e5b6e53dec, 64, 0x7600259f4cbd8cf6e2f090a09ef9e99a75a628f272c4bf477129a5adbf6ca208),
    (0x1111111111111111111111111111111111111111111111111111111111111111222222222222222222222222222222222222222222222222222222222222222233333333333333333333333333333333333333333333333333333333333333334444444444444444444444444444444444444444444444444444444444444444, 128, 0x72710f6499c8928f4ac3fa4df9309244e2ecdf204c9e6952b435fb21c146a830),
    (0x41e91bf0583c02e595db9f3896fd81b09a27a7b821595da7f7fc713cdaedc5c172710f6499c8928f4ac3fa4df9309244e2ecdf204c9e6952b435fb21c146a8307600259f4cbd8cf6e2f090a09ef9e99a75a628f272c4bf477129a5adbf6ca208df33f3f84813933ee3490848fef33d9bcaa139189af18432a4b6352746c532b70005e2729590d7c00000000000000001, 144, 0xcbb7065ee48c72a3ff164a77a90c3748bfc3f7247672f7a0484abeb9c050242b),
    (0x02f874821f9080843b9aca00843b9aca0082520894b23aa52dbeda59277ab8a962c69f5971f22904cf880de0b6b3a764000080c001a09957b67c0d7d27bbeaafa22664fea4b2c220ff788bedfd11e16559e8462f3ecca057707ea41575f1388689c1e64733298b7b89adcbcbae5a65f43e401dc51823ce, 119, 0x208205829ea2f5b57842adb5c8932b52a9ada9dfdce6c0679fd7ebbf97b98f21),
    (0x208205829ea2f5b57842adb5c8932b52a9ada9dfdce6c0679fd7ebbf97b98f21, 32, 0x794d7bfe16e58cf7ceb5d6f64c9771892d4c8c1370d8491a6024d44364672b91),
    (0x41e91bf0583c02e595db9f3896fd81b09a27a7b821595da7f7fc713cdaedc5c172710f6499c8928f4ac3fa4df9309244e2ecdf204c9e6952b435fb21c146a8307600259f4cbd8cf6e2f090a09ef9e99a75a628f272c4bf477129a5adbf6ca208794d7bfe16e58cf7ceb5d6f64c9771892d4c8c1370d8491a6024d44364672b910005e2729590d7c00000000000000001, 144, 0xb69cc043b98f96d650760b1aaeff0934b90cd76772427ec323b7a21d677891b0),
    (0xdf33f3f84813933ee3490848fef33d9bcaa139189af18432a4b6352746c532b7df33f3f84813933ee3490848fef33d9bcaa139189af18432a4b6352746c532b7, 64, 0xaf02dae647c3b26230b202e5b3d4a452063ed5bf14f56003081285d9c8e0cabd),
    (0x41e91bf0583c02e595db9f3896fd81b09a27a7b821595da7f7fc713cdaedc5c172710f6499c8928f4ac3fa4df9309244e2ecdf204c9e6952b435fb21c146a8307600259f4cbd8cf6e2f090a09ef9e99a75a628f272c4bf477129a5adbf6ca208af02dae647c3b26230b202e5b3d4a452063ed5bf14f56003081285d9c8e0cabd0005e2729590d7c00000000000000001, 144, 0xf5c1f8a169aeac0803d79823f67ae503e27800aecf1a2d575b76e75b04437deb),
    (0x02f88c821f9080843b9aca00843b9aca00825208947588b0f553d1910266089c58822e1120db47e572a0ffffffffffffffffffffffffffffffffffffffffffffffe731bef6166cd5b00080c001a0f6abc0e73ba12cb8c3be97597f95f7cb29afdcb29b9ffc11d24d918c2110fad4a02905928bf19d921a7e9c64d9b60d0960de78be78a199757e9c6a0f4b4b820fba, 143, 0x4ec0b920e24d90f5bb886b28f63d7ba7587efcc1dc204ae8e590e957e74f9844),
    (0x4ec0b920e24d90f5bb886b28f63d7ba7587efcc1dc204ae8e590e957e74f9844, 32, 0xd9a7c1ef745449b242814e2c7b0367abe89517ef2455f25bf62bf94a3df403e3),
    (0xd9a7c1ef745449b242814e2c7b0367abe89517ef2455f25bf62bf94a3df403e3df33f3f84813933ee3490848fef33d9bcaa139189af18432a4b6352746c532b7, 64, 0x03c73f5f668a3d30c8953932c34ee18e0f2060e24d6c419b5048c6039226cf54),
    (0x41e91bf0583c02e595db9f3896fd81b09a27a7b821595da7f7fc713cdaedc5c172710f6499c8928f4ac3fa4df9309244e2ecdf204c9e6952b435fb21c146a8307600259f4cbd8cf6e2f090a09ef9e99a75a628f272c4bf477129a5adbf6ca20803c73f5f668a3d30c8953932c34ee18e0f2060e24d6c419b5048c6039226cf540005e2729590d7c00000000000000001, 144, 0x955587b712bc4a7086262e9975afc2d7cd8d84bf7685da8ee6c6c9386394681f),
    (0x02f90151821f9080843b9aca00843b9aca00825208940001cb47ea6d8b55fe44fdd6b1bdb579efb43e6180b8e49f90f4c7000000000000000000000000000000000000000000000000000000000000006000000000000000000000000000000000000000000000000000000000000000a000000000000000000000000000000000000000000000000000000000000000120000000000000000000000000000000000000000000000000000000000000001570000000000000000000000000000000000000000000000000000000000000000000000000000000000000000000000000000000000000000000000000000015700000000000000000000000000000000000000000000000000000000000000c001a0a5ed6aad7eb391e04b1f24d8093e7da70312c3d842975110266021cb50664ddfa0614a2608e57dd064797ef9bbedeaf81cab90cbf54e07815d056417cc8dfe9e58, 341, 0x40cc0b3941b432816f9a5a7d9203dabf80e4e77226dc6fdbacd99b739644525b),
    (0x02f872821f9080843b9aca00843b9aca00825208945b41cef7f46a4a147e31150c3c5ffd077e54d0e18203e884d0e30db0c080a00ce3e36b7963ae88951d711e6994784da9dd0f930a6c9441eb8473f9cc7a2c9fa041e76d81d0e5bf357f7d98b36faa63c221dad7a8f3f4d3bb3b584c4f8782fa2f, 117, 0xd9a533132b81c07a22106602004067facc3d085ecdb2346e0aaad8aa57cb280e),
    (0x02f890821f9080843b9aca00843b9aca00825208945b41cef7f46a4a147e31150c3c5ffd077e54d0e180a42e1a7d4d0000000000000000000000000000000000000000000000000000000000000190c001a06a9acaa76b77eeabb62b6b6055e345cf42ffc64de91ca89c963c373ec26b288aa0459be5b5ef48f2f4bd6bbee8205641d7c1c9488457b096c4b30caa396d767f7b, 147, 0xb815c5ca8548824603662d542e2c3722acf0c31ed46652465258b3ef735cfbef),
    (0x40cc0b3941b432816f9a5a7d9203dabf80e4e77226dc6fdbacd99b739644525b, 32, 0x4a8f440fc69d0f6dd54734b144d8e8d38b92fc808d535ad52612ab5683363a8f),
    (0xd9a533132b81c07a22106602004067facc3d085ecdb2346e0aaad8aa57cb280e, 32, 0xc4035bbd20107f3fc6cc8f26190eb9122ff08651e7264325f6f4a8f08f810653),
    (0xb815c5ca8548824603662d542e2c3722acf0c31ed46652465258b3ef735cfbef, 32, 0x1202a029c92d7db071c9e4a4f83bfd483ad21dc18ca0c657e5eb18e15210326f),
    (0x4a8f440fc69d0f6dd54734b144d8e8d38b92fc808d535ad52612ab5683363a8fc4035bbd20107f3fc6cc8f26190eb9122ff08651e7264325f6f4a8f08f810653, 64, 0x88eae534fcbe512bf9cecf60ba827411687e0acbec756b3e76e305506e90766c),
    (0x1202a029c92d7db071c9e4a4f83bfd483ad21dc18ca0c657e5eb18e15210326f88eae534fcbe512bf9cecf60ba827411687e0acbec756b3e76e305506e90766c, 64, 0x92cbcfe2ead9a72ad74beea47031215a05b076dbc16e54fae0d843c7ec2f9266),
    (0x41e91bf0583c02e595db9f3896fd81b09a27a7b821595da7f7fc713cdaedc5c172710f6499c8928f4ac3fa4df9309244e2ecdf204c9e6952b435fb21c146a8307600259f4cbd8cf6e2f090a09ef9e99a75a628f272c4bf477129a5adbf6ca20892cbcfe2ead9a72ad74beea47031215a05b076dbc16e54fae0d843c7ec2f92660005e2729590d7c00000000000000001, 144, 0x489efefd0734f9fc8c247e668861c9431b5f4d312c25acfb7c3ea5e8e7480824),
    (0x72710f6499c8928f4ac3fa4df9309244e2ecdf204c9e6952b435fb21c146a830, 32, 0x1179d98d31f0674f73e3afbb792be855b26a1933c30dd23cc13868c880462550),
    (0x1179d98d31f0674f73e3afbb792be855b26a1933c30dd23cc13868c880462550, 32, 0x56f967e51bb01e1e1b590ccb64f6d3b3a1dbc891c1756482eb5e95f29f1c1287),
    (0x56f967e51bb01e1e1b590ccb64f6d3b3a1dbc891c1756482eb5e95f29f1c1287, 32, 0x980711276df35fe6903556e6540ca76e1f94eff186ea0dbac3f1f05a56879ac9),
    (0x980711276df35fe6903556e6540ca76e1f94eff186ea0dbac3f1f05a56879ac9, 32, 0xd221b714a1f6b5fa7cb55ff6fc6c269cd514d33ffbca12c49f00f84f1bac91bc),
    (0xd221b714a1f6b5fa7cb55ff6fc6c269cd514d33ffbca12c49f00f84f1bac91bc, 32, 0xa96177861b0b725e57bb7ea2ebbaed81c782173a41c8b7b0c35a1baa272094fe),
    (0xf86ba400000001000000000000000000000000000000000000000000000000000000000000000001823f43a060ac3159e9b45c0b76a9c1cf4d8837196ac58ca4840bda480d711f567e7fe702a04f003153b5779b64b3db6bde83c2ba8e20c358f45b95817c5c2d18717c7dcaf2, 109, 0x4abbe160f377f20fe38cda4802af2af1e5a4061973476fc0acbf35376143c21d),
    (0xf86ba400000002000000000000000000000000000000000000000000000000000000000000000001823f44a0987173015a390d2331b6f11bfc3d181b5119214ba4620f4406213e22b6891513a039cbe00941233d51966e530e3ea1b277e5d3f5024a0751cc24edf652fe8e690b, 109, 0x9855fdbb72e8a610924b94b928008dd89b77d0865c7f83d569faf1c2cfe7c468),
    (0x2c890159873dc6ddf71941c11a04e05efffbbca8b53ef9b32564bdbd364bdc3685e119d9ec52bb181ceb8d69cff08892fbd6fbc6e3bf02e45a2b37e0579c0b58, 64, 0xe2c135359e983df5804aadf55fb516dc2cfc1288e689ed377a9eebe2216cf1e3),
    (0xeba4cfffe746b569321de72d0af89c2fb48a484de3fc9343f31600ae1f3e13d633cb48cbf81601821f908080, 44, 0xeb54b5fece37900353387dc4437d971f1b802a48ea6ef3d2cfcfed4594c0348e),
    (0xeba46fc5a2d6111111111111111111111111111111111111111111111111111111111111111101821f908080, 44, 0x22afddd85496066f7b2b6fd32fb6f43000200adfadcc88153d27967d56b03c68),
    (0x794d7bfe16e58cf7ceb5d6f64c9771892d4c8c1370d8491a6024d44364672b91df33f3f84813933ee3490848fef33d9bcaa139189af18432a4b6352746c532b7, 64, 0x21de340a0138d41f5d18e0044b483cb6cb1066dc54ef99c798c5ebd1c2d0d241),
    (0x41e91bf0583c02e595db9f3896fd81b09a27a7b821595da7f7fc713cdaedc5c172710f6499c8928f4ac3fa4df9309244e2ecdf204c9e6952b435fb21c146a8307600259f4cbd8cf6e2f090a09ef9e99a75a628f272c4bf477129a5adbf6ca20821de340a0138d41f5d18e0044b483cb6cb1066dc54ef99c798c5ebd1c2d0d2410005e2729590d7c00000000000000001, 144, 0x7bc3ff205a16709df2e30052b393664c88b056c93fc247e17d9822941642b311),
    (0xeb4c1da10ca5f1e52d1cba87f627931b5a980dba6d910d6aa756db62fc71ea78db1a18a2c364fb348bb28e0b0a3c6563a0522626eecfe32cdab30746365f5747, 64, 0x5df1e4a200f4188af5d5374600dead00665771855a34155f5e7405489df2c3c6),
    (0x02f1821f9080843b9aca00843b9aca00825208947588b0f553d1910266089c58822e1120db47e572880de0b6b3a764000080c0, 51, 0x3dfbe6c65ddd68cdc9e513c70eaaa36aeb9a23288975fe2c7106786022ecd56a),
    (0x02f1821f9080843b9aca00843b9aca0082520894b23aa52dbeda59277ab8a962c69f5971f22904cf880de0b6b3a764000080c0, 51, 0x46c72d3ea6ca7381359ea6865edbf129965878b061cfd89a51481a4eba34e010),
    (0x16e76ff1f3c88de6be793d1f1445d561d7c86ef9b7073146ca2915fa434a273d95003fbdfe4e5d8201d04997850736337ed9f65533807c87fd8d5bcb4fe0ae91, 64, 0xa178d0b59194596405c2594c7588b0f553d1910266089c58822e1120db47e572),
    (0xeba4cfffe746c4bd59e1394781d1c7bf20a2c0b30c2acc9fbdd52dc5e0d76917de4034ebdf5901821f908080, 44, 0xded8904f354eec4869ec13055e759029580be67fc352242bbb6ff34efefd97c4),
    (0x1f99dcd19423a1933c4574e83e0403b233316003ec97c23ec2742bb23779f08a6d096a26e59061e2c8842c913a2dc6d4b99745f670cff68e83862113f06ecae5, 64, 0xb7f5d3281b62f8caf52f3be1cabf34a268847a610287709d841e5cd590cc5c00),
    (0xeba4cfffe74602cc96397d444c8ebdd3c75f2c53fc945bed8aab1e8da3f22ecca96cd45f8c5701821f908080, 44, 0x967be2e95041a38e6cfb942df52475912ae04db05d4a15ea89777f3aeb9294de),
    (0x948ae73b1b6ff026f7b862c00fc9b9c65ba22a4698bfa09f1d327dac623c9c7d86ac6c6cd25527ee728065d350784baed66f7c8ff2f86cb3fb094018e974f9e2, 64, 0xf53765836e53de7ca096bb59bec7b74f70c151707a0bfb20fe3767c6e65499e0),
    (0xeba4cfffe7464033fb2e6fa5cf816f87a9a40e8ce681fb6d8aa53c5302e72b80f654141a0e6501821f908080, 44, 0xd042a1b1fe2205a95080d3cef5a7b574b46bf767f66a484f785d3cf066a7cf56),
    (0xeba46fc5a2d6222222222222222222222222222222222222222222222222222222222222222201821f908080, 44, 0x8ae4c671777cc27f4b3c8c103497301a29c65f540d3b7bbe392a58fb9f009a8c),
    (0xeba46fc5a2d6333333333333333333333333333333333333333333333333333333333333333301821f908080, 44, 0xd051ebca554f46e18a84b1aabee1d239c40bc934ea033dda058d11deba1dbe45),
    (0xeba46fc5a2d6444444444444444444444444444444444444444444444444444444444444444401821f908080, 44, 0x22b3e12a89871299700ab76be40544f70924e28056e34bd832cbdea2be4ac60d),
    (0xcbb7065ee48c72a3ff164a77a90c3748bfc3f7247672f7a0484abeb9c050242b0000000000000000000000000000000000000000000000000000000000000000000000000000000000000000000000000000000000000000000000000000000000000000000000000000000000000000000000000000000000000000000000000005e27295a01a000000000000000002, 144, 0xbc8861aceb1646e56ef94ca24ab4dc6dd8007b673b252b8922e8c2f0017bc8f5),
    (0x02f868821f9080843b9aca00843b9aca00825208947588b0f553d1910266089c58822e1120db47e572880de0b6b3a7640000b700000000000000000000000000000000000000000000000000000000000000000000000000000000000000000000000000000000000000c0, 107, 0xf43556fff0246231c707d0fd2e1429dfe969d0573b58af748b494f487403ed4b),
    (0xf83eb70000000000000000000000000000000000000000000000000000000000000000000000000000000000000000000000000000000000000001821f908080, 64, 0x6be25c4b5b65742e462e189db39888a7a7b1a2dc1185c3f25e4d9f1a3b71686c),
    (0x02f874821f9080843b9aca00843b9aca00825208947588b0f553d1910266089c58822e1120db47e572880de0b6b3a764000080c080a05feac7ccb515ba01a6f7f8300d2f3dcdb1b1158115b26bf0c99c1584a1f31183a0921749269a77f4d871a87978ea19adcd0b460d66a821164bec1a8dd067ee8770, 119, 0xecd918c7ee61dd1f51041aae8cb8206d9148da7406d1af39213c00677419cad8),
    (0x02f88c821f9080843b9aca00843b9aca00825208947588b0f553d1910266089c58822e1120db47e572a07ffffffffffffffffffffffffffffffffffffffffffffff398df8497ef30000080c001a0b86e94880a5e929ba58e2a51062d7b642fafd1c90f3db45dac5ea8230ce9356da028e90dc52491c9783c83b073afd4e984b675cb92bada84d77a82a42ee97feafc, 143, 0x3e7949ebc9ec3ada49ce754c3a931ae8495d996726341314418f50bb1b353338),
    (0x3e7949ebc9ec3ada49ce754c3a931ae8495d996726341314418f50bb1b353338, 32, 0x768229319ecaf134dc2f847d6e7d67c8820e8a9990d8540e9f8fc93a6f335b26),
    (0x41e91bf0583c02e595db9f3896fd81b09a27a7b821595da7f7fc713cdaedc5c172710f6499c8928f4ac3fa4df9309244e2ecdf204c9e6952b435fb21c146a8307600259f4cbd8cf6e2f090a09ef9e99a75a628f272c4bf477129a5adbf6ca208768229319ecaf134dc2f847d6e7d67c8820e8a9990d8540e9f8fc93a6f335b260005e2729590d7c00000000000000001, 144, 0x9bbc76f4c9a4687a334e76ff6803ea590f02f28161a6401163bed162fb1499cf),
    (0x768229319ecaf134dc2f847d6e7d67c8820e8a9990d8540e9f8fc93a6f335b26d9a7c1ef745449b242814e2c7b0367abe89517ef2455f25bf62bf94a3df403e3, 64, 0x4cb4f308169793c46704ba0397f86aea45f2846b5f22e588ddbea923f2d771cc),
    (0x41e91bf0583c02e595db9f3896fd81b09a27a7b821595da7f7fc713cdaedc5c172710f6499c8928f4ac3fa4df9309244e2ecdf204c9e6952b435fb21c146a8307600259f4cbd8cf6e2f090a09ef9e99a75a628f272c4bf477129a5adbf6ca2084cb4f308169793c46704ba0397f86aea45f2846b5f22e588ddbea923f2d771cc0005e2729590d7c00000000000000001, 144, 0xe01babdab7935eb6f0727e903c8d698f0e66a09c2a2a24c484c7d8841ce27aa0),
    (0x41e91bf0583c02e595db9f3896fd81b09a27a7b821595da7f7fc713cdaedc5c172710f6499c8928f4ac3fa4df9309244e2ecdf204c9e6952b435fb21c146a8307600259f4cbd8cf6e2f090a09ef9e99a75a628f272c4bf477129a5adbf6ca20800000000000000000000000000000000000000000000000000000000000000000005e2729590d7c00000000000000001, 144, 0x414a1002fc364c78cde000a43e90e0de2cadbc19fe1ac2e3bdcfcca832168043),
    (0xd500dead00665771855a34155f5e7405489df2c3c600, 22, 0x717c977d252759ecd9a1946d5b41cef7f46a4a147e31150c3c5ffd077e54d0e1),
    (0xd500dead00665771855a34155f5e7405489df2c3c601, 22, 0x8edec95e1228739b214bae756d48fdfe009e309dd5c4e69dec87365bfa0c8119),
    (0x7472616e7366657228616464726573732c75696e7432353629, 25, 0xa9059cbb2ab09eb219583f4a59a5d0623ade346d962bcd4e46b11da047c9049b),
    (0x7472616e7366657246726f6d28616464726573732c616464726573732c75696e7432353629, 37, 0x23b872dd7302113369cda2901243429419bec145408fa8b352b3dd92b66c680b)]

/-- Hashes, the compact signatures made of them and the keys recovered from those. -/
def signatures : List (Nat × Nat × Nat) :=
  [(0x41e91bf0583c02e595db9f3896fd81b09a27a7b821595da7f7fc713cdaedc5c1, 0x7f31ae12a792653ea222f66bd9a6b8b0c72cb2e6ba952ba3706de01a71e6b5d63030de6302f1d2fe85a22d2122b90a11ad9f7cc7bf5c517049bf170dede9370600, 0x04eb4c1da10ca5f1e52d1cba87f627931b5a980dba6d910d6aa756db62fc71ea78db1a18a2c364fb348bb28e0b0a3c6563a0522626eecfe32cdab30746365f5747),
    (0xcbb7065ee48c72a3ff164a77a90c3748bfc3f7247672f7a0484abeb9c050242b, 0x205e14e3fc8003390e408c5857e88594bc1f099a755ea3773b3dffb79f50496308312a0109d4b762914936a979bf962ee42194f7d6332e45c9c00635dd197aa901, 0x043205c2720e78c550b053d387b10fd503705b778aafe52276e0c75c3f08491405ad99da30f8efbc3d65469b2b6b7c91dc34a78a055c8cdc21f5816578b5a2e8cf),
    (0xb69cc043b98f96d650760b1aaeff0934b90cd76772427ec323b7a21d677891b0, 0x6f081f641a95199a6e6b90541cf70bc3ab7e697306bd16d49b9dfe46735af9717c74423cc0fe23f3942a7b8ebf1414a7aa521a6e2ec37fe3369337949037a18801, 0x043205c2720e78c550b053d387b10fd503705b778aafe52276e0c75c3f08491405ad99da30f8efbc3d65469b2b6b7c91dc34a78a055c8cdc21f5816578b5a2e8cf),
    (0xf5c1f8a169aeac0803d79823f67ae503e27800aecf1a2d575b76e75b04437deb, 0x864901f42bee82c4dad7bc0ae47be24930f796f600afc6d4f6833cee033a26b70bc4eb125e8ec586b586d18262d4fada15808139d500910924e26d08f2f1bf6300, 0x043205c2720e78c550b053d387b10fd503705b778aafe52276e0c75c3f08491405ad99da30f8efbc3d65469b2b6b7c91dc34a78a055c8cdc21f5816578b5a2e8cf),
    (0x955587b712bc4a7086262e9975afc2d7cd8d84bf7685da8ee6c6c9386394681f, 0x927cdc9631bb9c3de9848852896042c8b8fa8257c2e31b1d7d4f1295c722d0f623c44cfb80c1ae6cbe3590add671c8836a4e51e20e711924247282190b86ab0800, 0x043205c2720e78c550b053d387b10fd503705b778aafe52276e0c75c3f08491405ad99da30f8efbc3d65469b2b6b7c91dc34a78a055c8cdc21f5816578b5a2e8cf),
    (0x489efefd0734f9fc8c247e668861c9431b5f4d312c25acfb7c3ea5e8e7480824, 0xc9e75db60639fc02e1eb7d446dcd12d4281520841d882c77d9215bbb74399bc31d87f7d293e637c6c24bc48d1a246889b030926bba8232f86f1aef1a1e8dec9100, 0x043205c2720e78c550b053d387b10fd503705b778aafe52276e0c75c3f08491405ad99da30f8efbc3d65469b2b6b7c91dc34a78a055c8cdc21f5816578b5a2e8cf),
    (0xeb54b5fece37900353387dc4437d971f1b802a48ea6ef3d2cfcfed4594c0348e, 0xb3376ea8e7366adf587b98eb95b4b2d53bcb3e8855b5bd9c00474dca25eb9f4013bc875823277ba7f9442f2b31f55725299e12ff95f7823b1e0965009b361b5001, 0x042c890159873dc6ddf71941c11a04e05efffbbca8b53ef9b32564bdbd364bdc3685e119d9ec52bb181ceb8d69cff08892fbd6fbc6e3bf02e45a2b37e0579c0b58),
    (0x22afddd85496066f7b2b6fd32fb6f43000200adfadcc88153d27967d56b03c68, 0x6f42ffbb8ee7fd78a0acd6fd373a1b21abd049641da663fc6716b53db2934edf5f4c83b03ddff978dd0acf27d58c9e388d58791bb3c47c2f45f11649157d051b00, 0x042c890159873dc6ddf71941c11a04e05efffbbca8b53ef9b32564bdbd364bdc3685e119d9ec52bb181ceb8d69cff08892fbd6fbc6e3bf02e45a2b37e0579c0b58),
    (0x7bc3ff205a16709df2e30052b393664c88b056c93fc247e17d9822941642b311, 0x64dc0e336d4939f02282a7eba9828a2dab6dad42a5e4402a15261a9c5613ef7a2efbf2c5c78863d1cf831b0eb68efdcf0b8558c375988e91bfa873befd21674a00, 0x043205c2720e78c550b053d387b10fd503705b778aafe52276e0c75c3f08491405ad99da30f8efbc3d65469b2b6b7c91dc34a78a055c8cdc21f5816578b5a2e8cf),
    (0x3dfbe6c65ddd68cdc9e513c70eaaa36aeb9a23288975fe2c7106786022ecd56a, 0x5feac7ccb515ba01a6f7f8300d2f3dcdb1b1158115b26bf0c99c1584a1f311836de8b6d965880b278e57868715e65231af68cf80072789efd3b7d0bc6847b9d101, 0x04eb4c1da10ca5f1e52d1cba87f627931b5a980dba6d910d6aa756db62fc71ea78db1a18a2c364fb348bb28e0b0a3c6563a0522626eecfe32cdab30746365f5747),
    (0x46c72d3ea6ca7381359ea6865edbf129965878b061cfd89a51481a4eba34e010, 0x9957b67c0d7d27bbeaafa22664fea4b2c220ff788bedfd11e16559e8462f3ecc57707ea41575f1388689c1e64733298b7b89adcbcbae5a65f43e401dc51823ce01, 0x04eb4c1da10ca5f1e52d1cba87f627931b5a980dba6d910d6aa756db62fc71ea78db1a18a2c364fb348bb28e0b0a3c6563a0522626eecfe32cdab30746365f5747),
    (0xded8904f354eec4869ec13055e759029580be67fc352242bbb6ff34efefd97c4, 0x6938bf2f3f3b49f902cf260fa8ec62bfe4bdfa846893a5245f7c5cd65d6efa2839762364e002d7ef08e2e3454917401ad1f6e800f7a36a4b28796bb80c76e8fa01, 0x0416e76ff1f3c88de6be793d1f1445d561d7c86ef9b7073146ca2915fa434a273d95003fbdfe4e5d8201d04997850736337ed9f65533807c87fd8d5bcb4fe0ae91),
    (0x967be2e95041a38e6cfb942df52475912ae04db05d4a15ea89777f3aeb9294de, 0x33363df7ca25c53f253035be0bb46dd552dc5496295c7ca5109ac0db66b86ce119d318685b55741066073683d4bfc7f144decd850a491c998411f7f9ad8b891b01, 0x041f99dcd19423a1933c4574e83e0403b233316003ec97c23ec2742bb23779f08a6d096a26e59061e2c8842c913a2dc6d4b99745f670cff68e83862113f06ecae5),
    (0xd042a1b1fe2205a95080d3cef5a7b574b46bf767f66a484f785d3cf066a7cf56, 0x04ffcd9bfeb6e8ba69cfe845a3cc9854029c907039bf664e8a3070a46c8aef4515e95009160f08a0e6d83387ad7a99b8d78d691bb98e22d711a9bdee133d59b800, 0x04948ae73b1b6ff026f7b862c00fc9b9c65ba22a4698bfa09f1d327dac623c9c7d86ac6c6cd25527ee728065d350784baed66f7c8ff2f86cb3fb094018e974f9e2),
    (0x8ae4c671777cc27f4b3c8c103497301a29c65f540d3b7bbe392a58fb9f009a8c, 0x681b782bf03dd96959b088f6dbd47cb43dc67ce0d14eb92100407e25809ab5eb20629b10eb943d11a85c124fd96319f376aed3eee6bca5062ad313a5b1a88bd700, 0x0416e76ff1f3c88de6be793d1f1445d561d7c86ef9b7073146ca2915fa434a273d95003fbdfe4e5d8201d04997850736337ed9f65533807c87fd8d5bcb4fe0ae91),
    (0xd051ebca554f46e18a84b1aabee1d239c40bc934ea033dda058d11deba1dbe45, 0x87c9cdb6d3885ea20a2274c906bca6f35d8f1072c00e0a0ae1aa4fb305d8887e5dbef01c6ce5bcbd476d7ab38a6f2943fa68dd0911850b5902336ea9da0d7b0401, 0x041f99dcd19423a1933c4574e83e0403b233316003ec97c23ec2742bb23779f08a6d096a26e59061e2c8842c913a2dc6d4b99745f670cff68e83862113f06ecae5),
    (0x22b3e12a89871299700ab76be40544f70924e28056e34bd832cbdea2be4ac60d, 0x5ee99e1a10351f0a6d185a2650c209c1a85aa03d321bf36b2591a2471abd1e8763797b7d46ad2262e343016b07895175ca3d5cb2b1e7795419c392f7c9a38e5300, 0x04948ae73b1b6ff026f7b862c00fc9b9c65ba22a4698bfa09f1d327dac623c9c7d86ac6c6cd25527ee728065d350784baed66f7c8ff2f86cb3fb094018e974f9e2),
    (0xbc8861aceb1646e56ef94ca24ab4dc6dd8007b673b252b8922e8c2f0017bc8f5, 0xd3be85d1eb1ec8447ef973bd97588d030afe95cdf6f9079e12fb7157db4b4a21561ebec11441d1c72010e6c772a50ae3fee27ed1c45700d00b72b50d8d303ed500, 0x043205c2720e78c550b053d387b10fd503705b778aafe52276e0c75c3f08491405ad99da30f8efbc3d65469b2b6b7c91dc34a78a055c8cdc21f5816578b5a2e8cf),
    (0xf43556fff0246231c707d0fd2e1429dfe969d0573b58af748b494f487403ed4b, 0xd294823a57f9736a72f758f6d78fe553448ab051edd33344191f272ab8b042fc6a76661a2348ddfb64a32a86780c53ca26721206d0d3875ff565c9e333faaaca01, 0x04eb4c1da10ca5f1e52d1cba87f627931b5a980dba6d910d6aa756db62fc71ea78db1a18a2c364fb348bb28e0b0a3c6563a0522626eecfe32cdab30746365f5747),
    (0x6be25c4b5b65742e462e189db39888a7a7b1a2dc1185c3f25e4d9f1a3b71686c, 0xd7870861f4c7d9351db7d05144e456d9927d436a367c8cea2d5fa12c92e5e15e41a07855cdbcb43866f8980a49a1f7dc24f971589598109c73f5127a9a2a23e300, 0x042c890159873dc6ddf71941c11a04e05efffbbca8b53ef9b32564bdbd364bdc3685e119d9ec52bb181ceb8d69cff08892fbd6fbc6e3bf02e45a2b37e0579c0b58),
    (0x3dfbe6c65ddd68cdc9e513c70eaaa36aeb9a23288975fe2c7106786022ecd56a, 0x5feac7ccb515ba01a6f7f8300d2f3dcdb1b1158115b26bf0c99c1584a1f31183921749269a77f4d871a87978ea19adcd0b460d66a821164bec1a8dd067ee877000, 0x04eb4c1da10ca5f1e52d1cba87f627931b5a980dba6d910d6aa756db62fc71ea78db1a18a2c364fb348bb28e0b0a3c6563a0522626eecfe32cdab30746365f5747),
    (0x9bbc76f4c9a4687a334e76ff6803ea590f02f28161a6401163bed162fb1499cf, 0x0c177897db9e0a5a938fa0b9bf69e0ac5607f01d548cba00cd3db8a759956d83203b9ba27dc38bcd369cadc6b8d338a82cd7e7b06e8e6b98dc8fb44606b950f501, 0x043205c2720e78c550b053d387b10fd503705b778aafe52276e0c75c3f08491405ad99da30f8efbc3d65469b2b6b7c91dc34a78a055c8cdc21f5816578b5a2e8cf),
    (0xe01babdab7935eb6f0727e903c8d698f0e66a09c2a2a24c484c7d8841ce27aa0, 0x5e28ec6402b6ad9b7f361fc6fbece7b119ff3d2e220de0572934627dd52086322f334e0df772b3bf07b9d5f43d29adc3e0d27ebdc8b3227188966c4d26b37e4c00, 0x043205c2720e78c550b053d387b10fd503705b778aafe52276e0c75c3f08491405ad99da30f8efbc3d65469b2b6b7c91dc34a78a055c8cdc21f5816578b5a2e8cf),
    (0x414a1002fc364c78cde000a43e90e0de2cadbc19fe1ac2e3bdcfcca832168043, 0x450b870233b65d27de7bc18d3d6bf2d01a6f55ccfe93ddaeadb2c50e59117efe75a661f2f149c885f283c8798124554d71fa743e658fc0adc47c28c47ffe270701, 0x043205c2720e78c550b053d387b10fd503705b778aafe52276e0c75c3f08491405ad99da30f8efbc3d65469b2b6b7c91dc34a78a055c8cdc21f5816578b5a2e8cf)]

/-- The private and public keys of the genesis account and of the validators. -/
def keys : List (Nat × Nat) :=
  [(0xe89ef6409c467285bcae9f80ab1cfeb3487cfe61ab28fb7d36443e1daa0c2867, 0x04eb4c1da10ca5f1e52d1cba87f627931b5a980dba6d910d6aa756db62fc71ea78db1a18a2c364fb348bb28e0b0a3c6563a0522626eecfe32cdab30746365f5747),
    (0xba5e6e9dd9cbd263969b94ee385d885c2d303dfc181db2a09f6bf19a7ba26759, 0x0416e76ff1f3c88de6be793d1f1445d561d7c86ef9b7073146ca2915fa434a273d95003fbdfe4e5d8201d04997850736337ed9f65533807c87fd8d5bcb4fe0ae91),
    (0xfd84d99aa18b474bf383e10925d82194f1b0ca268e7a339032679d6e3a201ad4, 0x041f99dcd19423a1933c4574e83e0403b233316003ec97c23ec2742bb23779f08a6d096a26e59061e2c8842c913a2dc6d4b99745f670cff68e83862113f06ecae5),
    (0x66ce71abe0b8acd92cfd3965d6f9d80122aed9b0e9bdd3dbe018230bafde5751, 0x042c890159873dc6ddf71941c11a04e05efffbbca8b53ef9b32564bdbd364bdc3685e119d9ec52bb181ceb8d69cff08892fbd6fbc6e3bf02e45a2b37e0579c0b58),
    (0x856aeb3b9c20a80d1520a2406875f405d336e09475f43c478eb4f0dafb765fe7, 0x043205c2720e78c550b053d387b10fd503705b778aafe52276e0c75c3f08491405ad99da30f8efbc3d65469b2b6b7c91dc34a78a055c8cdc21f5816578b5a2e8cf),
    (0x81f288dd776f4edfe256d34af1f7d719f511559f19115af3e3d692e741faadc6, 0x04948ae73b1b6ff026f7b862c00fc9b9c65ba22a4698bfa09f1d327dac623c9c7d86ac6c6cd25527ee728065d350784baed66f7c8ff2f86cb3fb094018e974f9e2)]

/-- The libraries on the recorded inputs. -/
def crypto : Crypto where
  sha3 bs := FixedStr.ofNat 32
    (((keccak.find? fun e => e.1 = BigEndian.decode bs ∧ e.2.1 = bs.length).map
      fun e => e.2.2).getD 0)
  ecdsaRecover sig msg :=
    (signatures.find? fun e =>
      e.1 = BigEndian.decode msg.data ∧ e.2.1 = BigEndian.decode sig.data).map
        fun e => FixedStr.ofNat 65 e.2.2
  ecPubkeyCreate key :=
    (keys.find? fun e => e.1 = BigEndian.decode key.data).map fun e => FixedStr.ofNat 65 e.2
  ecdsaSignRecoverable msg _ :=
    (signatures.find? fun e => e.1 = BigEndian.decode msg.data).map
      fun e => FixedStr.ofNat 65 e.2.1

/-- A validator transaction for block 1 of chain 8080. -/
def validatorTx (sender data v r s : Nat) : TxValidator :=
  { sender := FixedStr.ofNat 20 sender, data := BigEndian.fixed 36 data, chainId := 8080
    nHeight := 1, v := Fin.ofNat _ v, r := Fin.ofNat _ r, s := Fin.ofNat _ s }

/-- The randomHash and random transactions of the four participants of block 1. -/
def validatorTxs : List TxValidator :=
  [validatorTx 0x5fb516dc2cfc1288e689ed377a9eebe2216cf1e3
      0xcfffe746b569321de72d0af89c2fb48a484de3fc9343f31600ae1f3e13d633cb48cbf816 16196
      0xb3376ea8e7366adf587b98eb95b4b2d53bcb3e8855b5bd9c00474dca25eb9f40
      0x13bc875823277ba7f9442f2b31f55725299e12ff95f7823b1e0965009b361b50,
    validatorTx 0x7588b0f553d1910266089c58822e1120db47e572
      0xcfffe746c4bd59e1394781d1c7bf20a2c0b30c2acc9fbdd52dc5e0d76917de4034ebdf59 16196
      0x6938bf2f3f3b49f902cf260fa8ec62bfe4bdfa846893a5245f7c5cd65d6efa28
      0x39762364e002d7ef08e2e3454917401ad1f6e800f7a36a4b28796bb80c76e8fa,
    validatorTx 0xcabf34a268847a610287709d841e5cd590cc5c00
      0xcfffe74602cc96397d444c8ebdd3c75f2c53fc945bed8aab1e8da3f22ecca96cd45f8c57 16196
      0x33363df7ca25c53f253035be0bb46dd552dc5496295c7ca5109ac0db66b86ce1
      0x19d318685b55741066073683d4bfc7f144decd850a491c998411f7f9ad8b891b,
    validatorTx 0xbec7b74f70c151707a0bfb20fe3767c6e65499e0
      0xcfffe7464033fb2e6fa5cf816f87a9a40e8ce681fb6d8aa53c5302e72b80f654141a0e65 16195
      0x4ffcd9bfeb6e8ba69cfe845a3cc9854029c907039bf664e8a3070a46c8aef45
      0x15e95009160f08a0e6d83387ad7a99b8d78d691bb98e22d711a9bdee133d59b8,
    validatorTx 0x5fb516dc2cfc1288e689ed377a9eebe2216cf1e3
      0x6fc5a2d61111111111111111111111111111111111111111111111111111111111111111 16195
      0x6f42ffbb8ee7fd78a0acd6fd373a1b21abd049641da663fc6716b53db2934edf
      0x5f4c83b03ddff978dd0acf27d58c9e388d58791bb3c47c2f45f11649157d051b,
    validatorTx 0x7588b0f553d1910266089c58822e1120db47e572
      0x6fc5a2d62222222222222222222222222222222222222222222222222222222222222222 16195
      0x681b782bf03dd96959b088f6dbd47cb43dc67ce0d14eb92100407e25809ab5eb
      0x20629b10eb943d11a85c124fd96319f376aed3eee6bca5062ad313a5b1a88bd7,
    validatorTx 0xcabf34a268847a610287709d841e5cd590cc5c00
      0x6fc5a2d63333333333333333333333333333333333333333333333333333333333333333 16196
      0x87c9cdb6d3885ea20a2274c906bca6f35d8f1072c00e0a0ae1aa4fb305d8887e
      0x5dbef01c6ce5bcbd476d7ab38a6f2943fa68dd0911850b5902336ea9da0d7b04,
    validatorTx 0xbec7b74f70c151707a0bfb20fe3767c6e65499e0
      0x6fc5a2d64444444444444444444444444444444444444444444444444444444444444444 16195
      0x5ee99e1a10351f0a6d185a2650c209c1a85aa03d321bf36b2591a2471abd1e87
      0x63797b7d46ad2262e343016b07895175ca3d5cb2b1e7795419c392f7c9a38e53]

/-- Two transactions of the last participant, neither a randomHash nor a random transaction. -/
def rogueTxs : List TxValidator :=
  [validatorTx 0xbec7b74f70c151707a0bfb20fe3767c6e65499e0
      0x000000010000000000000000000000000000000000000000000000000000000000000000 16195
      0x60ac3159e9b45c0b76a9c1cf4d8837196ac58ca4840bda480d711f567e7fe702
      0x4f003153b5779b64b3db6bde83c2ba8e20c358f45b95817c5c2d18717c7dcaf2,
    validatorTx 0xbec7b74f70c151707a0bfb20fe3767c6e65499e0
      0x000000020000000000000000000000000000000000000000000000000000000000000000 16196
      0x987173015a390d2331b6f11bfc3d181b5119214ba4620f4406213e22b6891513
      0x39cbe00941233d51966e530e3ea1b277e5d3f5024a0751cc24edf652fe8e690b]

theorem parse_validatorTxs : ∀ tx ∈ validatorTxs,
    TxValidator.parse crypto (tx.rlpSerialize true) 8080 = .ok tx := by
  decide +kernel

/-- The genesis account sends a token to a validator. -/
def transfer : TxBlock :=
  { receiver := FixedStr.ofNat 20 0x7588b0f553d1910266089c58822e1120db47e572
    sender := contractCreator, data := [], chainId := 8080, nonce := 0
    value := 1000000000000000000
    maxPriorityFeePerGas := 1000000000, maxFeePerGas := 1000000000, gasLimit := 21000, v := 1
    r := 0x5feac7ccb515ba01a6f7f8300d2f3dcdb1b1158115b26bf0c99c1584a1f31183
    s := 0x6de8b6d965880b278e57868715e65231af68cf80072789efd3b7d0bc6847b9d1 }

theorem parse_transfer : TxBlock.parse crypto (transfer.rlpSerialize true) 8080 = .ok transfer := by
  decide +kernel

/-- The genesis account calls the rdPoS contract, with a token. -/
def rdPoSCall : TxBlock :=
  { receiver := FixedStr.ofNat 20 0xb23aa52dbeda59277ab8a962c69f5971f22904cf
    sender := contractCreator, data := [], chainId := 8080, nonce := 0
    value := 1000000000000000000
    maxPriorityFeePerGas := 1000000000, maxFeePerGas := 1000000000, gasLimit := 21000, v := 1
    r := 0x9957b67c0d7d27bbeaafa22664fea4b2c220ff788bedfd11e16559e8462f3ecc
    s := 0x57707ea41575f1388689c1e64733298b7b89adcbcbae5a65f43e401dc51823ce }

/-- A call that asks the contract manager for an ERC20Wrapper. -/
def deployWrapper : EthCallInfo :=
  { sender := contractCreator, receiver := contractManagerAddress, gasLimit := 0, gasPrice := 0
    value := 0, data := functorOf 0x97aa51a3 }

/-- The address of the first contract that is deployed. -/
def firstContract : Address := FixedStr.ofNat 20 0x5b41cef7f46a4a147e31150c3c5ffd077e54d0e1

/-- The address of the second one. -/
def secondContract : Address := FixedStr.ofNat 20 0x6d48fdfe009e309dd5c4e69dec87365bfa0c8119

/-- A transaction of the genesis account with the given receiver, value and data. -/
def call (receiver : Address) (value : Uint256) (data : Bytes) : TxBlock :=
  { transfer with receiver, value, data }

/-- Create an ERC20 whose whole supply belongs to the genesis account. -/
def createERC20 (supply : Uint256) : TxBlock :=
  call contractManagerAddress 0 (functorOf 0xb74e5ed5 ++
    Abi.encode [.bytes [84], .bytes [84], .uint256 18, .uint256 supply])

/-- Create an ERC20Wrapper. -/
def createWrapper : TxBlock := call contractManagerAddress 0 deployWrapper.data

/-- Create a NativeWrapper. -/
def createNativeWrapper : TxBlock :=
  call contractManagerAddress 0 (functorOf 0x9f90f4c7 ++
    Abi.encode [.bytes [87], .bytes [87], .uint256 18])

/-- Let the second contract spend tokens of the first. -/
def approve (amount : Uint256) : TxBlock :=
  call firstContract 0 (functorOf 0x095ea7b3 ++
    Abi.encode [.address secondContract, .uint256 amount])

/-- Deposit tokens of the first contract in the second, an ERC20Wrapper. -/
def deposit (amount : Uint256) : TxBlock :=
  call secondContract 0 (functorOf 0x47e7ef24 ++
    Abi.encode [.address firstContract, .uint256 amount])

/-- Withdraw them. -/
def withdraw (amount : Uint256) : TxBlock :=
  call secondContract 0 (functorOf 0xf3fef3a3 ++
    Abi.encode [.address firstContract, .uint256 amount])

/-- Deposit native tokens in the first contract, a NativeWrapper. -/
def nativeDeposit (value : Uint256) : TxBlock :=
  call firstContract value (functorOf 0xd0e30db0)

/-- Withdraw them. -/
def nativeWithdraw (amount : Uint256) : TxBlock :=
  call firstContract 0 (functorOf 0x2e1a7d4d ++ Abi.encode [.uint256 amount])


/-- Execute a transaction, or simulate a call. -/
def perform (depth : Nat) : TxBlock ⊕ EthCallInfo → State → Option State
  | .inl tx, s => (s.processTransaction crypto depth tx).map fun p => p.2
  | .inr info, s => (s.estimateGas crypto depth info).map fun p => p.2

/-- The key of the first participant of block 1. -/
def participantKey : PrivKey :=
  FixedStr.ofNat 32 0x66ce71abe0b8acd92cfd3965d6f9d80122aed9b0e9bdd3dbe018230bafde5751

/-- The seed behind its transactions. -/
def participantSeed : Hash :=
  FixedStr.ofNat 32 0x1111111111111111111111111111111111111111111111111111111111111111

/-- The key of the genesis account. -/
def creatorKey : PrivKey :=
  FixedStr.ofNat 32 0xe89ef6409c467285bcae9f80ab1cfeb3487cfe61ab28fb7d36443e1daa0c2867

/-- The key of the validator that has to sign block 1. -/
def signerKey : PrivKey :=
  FixedStr.ofNat 32 0x856aeb3b9c20a80d1520a2406875f405d336e09475f43c478eb4f0dafb765fe7

/-- Block 1 with the given transactions. -/
def block (txs : List TxBlock) : Block :=
  (Block.finalize crypto { Block.new ((genesisBlock crypto).hash crypto) 1656356647000000 1 with
    txs, txValidators := validatorTxs } signerKey 1656356647000000).2

theorem finalize_block (txs : List TxBlock) : Block.finalize crypto
    { Block.new ((genesisBlock crypto).hash crypto) 1656356647000000 1 with
      txs, txValidators := validatorTxs } signerKey 1656356647000000 = (true, block txs) := by
  refine Prod.ext ?_ rfl
  rw [Block.finalize_fst]
  rfl

theorem block_contents (txs : List TxBlock) :
    (block txs).txs = txs ∧ (block txs).txValidators = validatorTxs ∧ (block txs).nHeight = 1 := by
  unfold block Block.finalize
  split
  · exact ⟨rfl, rfl, rfl⟩
  · split <;> exact ⟨rfl, rfl, rfl⟩

/-- Block 2 after a block 1, without transactions. -/
def nextBlock (txs : List TxBlock) : Block :=
  (Block.finalize crypto (Block.new ((block txs).hash crypto) 1656356648000000 2) signerKey
    1656356648000000).2

/-- What can be observed of a fresh node. -/
def start {α : Type} (look : State → Option α) : Option α :=
  match State.genesis crypto with
  | .error _ => none
  | .ok s => look s

theorem start_eq_some {α : Type} {look : State → Option α} {x : α}
    (h : start look = some x) : ∃ s, State.genesis crypto = .ok s ∧ look s = some x := by
  unfold start at h
  split at h
  · cases h
  · rename_i s hs; exact ⟨s, hs, h⟩

/-- What can be observed of a fresh node and of the state after it accepted block 1. -/
def observe {α : Type} (txs : List TxBlock) (look : State → State → α) : Option α :=
  start fun s =>
    match s.processNextBlock crypto 1 (block txs) with
    | some (.ok (), s') => some (look s s')
    | _ => none

theorem observe_eq_some {α : Type} {txs : List TxBlock} {look : State → State → α} {x : α}
    (h : observe txs look = some x) :
    ∃ s s', State.genesis crypto = .ok s ∧
      s.processNextBlock crypto 1 (block txs) = some (.ok (), s') ∧ look s s' = x := by
  obtain ⟨s, hs, h⟩ := start_eq_some h
  split at h
  · rename_i s' hs'
    cases h
    exact ⟨s, s', hs, hs', rfl⟩
  · cases h

/-- What can be observed of the state after transactions that all returned. -/
def settled {α : Type} (p : Option (Except Exn Unit × State)) (look : State → Option α) :
    Option α :=
  match p with
  | some (.ok (), s) => look s
  | _ => none

theorem settled_eq_some {α : Type} {p : Option (Except Exn Unit × State)}
    {look : State → Option α} {x : α} (h : settled p look = some x) :
    ∃ s, p = some (.ok (), s) ∧ look s = some x := by
  unfold settled at h
  split at h
  · rename_i s
    exact ⟨s, rfl, h⟩
  · cases h

/-- What can be observed of the state after transactions the last of which threw. -/
def stopped {α : Type} (p : Option (Except Exn Unit × State)) (look : State → Option α) :
    Option α :=
  match p with
  | some (.error _, s) => look s
  | _ => none

/-- What can be observed of a transaction with a contract call: the accounts before the call,
    the call, and the state after the transaction. -/
def inspect {α : Type} (depth : Nat) (s : State) (tx : TxBlock)
    (look : Accounts → ContractManager.TxOutcome → State → α) : Option α :=
  match State.transferValue s.accounts tx, s.callOutcome crypto depth tx,
    s.processTransaction crypto depth tx with
  | (.ok (), accounts), some o, some (.ok (), s') => some (look accounts o s')
  | _, _, _ => none

theorem inspect_eq_some {α : Type} {depth : Nat} {s : State} {tx : TxBlock}
    {look : Accounts → ContractManager.TxOutcome → State → α} {x : α}
    (h : inspect depth s tx look = some x) :
    ∃ accounts o s', State.transferValue s.accounts tx = (.ok (), accounts) ∧
      s.callOutcome crypto depth tx = some o ∧
      s.processTransaction crypto depth tx = some (.ok (), s') ∧ look accounts o s' = x := by
  unfold inspect at h
  split at h
  · rename_i accounts o s' ht ho hp
    cases h
    exact ⟨accounts, o, s', ht, ho, hp, rfl⟩
  · cases h

end OrbiterSdk.Recorded
